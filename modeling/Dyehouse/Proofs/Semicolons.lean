import Dyehouse.Proofs.Minify
import Dyehouse.Proofs.Provenance

/-!
# Semicolons that minifying leaves

Minifying goes over the text once, and a semicolon that comes to stand before a closing brace
only because another one was dropped stays.  So a minified stylesheet has a semicolon before a
closing brace exactly if the plain one has two before one (`Text.pair_infix_dropBefore_iff`).

Where a plain stylesheet has two is a question of what the source says.  Without a semicolon in
the source there are never two in a row (`Css.spaced_write`).  Without a closing brace in the
source every brace closes something, and two semicolons stand before it exactly if a value at the
end of a block ends in a semicolon, or one at the end of a font in two
(`Css.doubled_infix_write_iff`).
-/

namespace Dyehouse

/-! ### One pass -/

namespace Text

theorem singleton_prefix_dropBefore_iff {a b : Char} {t : Text} :
    [b] <+: dropBefore a b t ↔ [b] <+: t ∨ [a, b] <+: t := by
  fun_cases dropBefore a b t with
  | case1 => simp
  | case2 c => simp
  | case3 c d rest hpair => simp [hpair]
  | case4 c d rest hpair =>
    simp only [List.cons_prefix_cons, List.nil_prefix, and_true]
    constructor
    · exact Or.inl
    · rintro (hb | ⟨rfl, rfl⟩)
      · exact hb
      · exact absurd ⟨rfl, rfl⟩ hpair

/-- Going over a text once leaves the pair exactly if the first character stood twice before the
    second one. -/
theorem pair_infix_dropBefore_iff {a b : Char} (hne : a ≠ b) (t : Text) :
    [a, b] <:+: dropBefore a b t ↔ [a, a, b] <:+: t := by
  fun_induction dropBefore a b t with
  | case1 => simp
  | case2 c => simp [List.infix_cons_iff]
  | case3 c d rest hpair ih =>
    obtain ⟨rfl, rfl⟩ := hpair
    simp [List.infix_cons_iff, hne, ih]
  | case4 c d rest hpair ih =>
    rw [List.infix_cons_iff, ih, @List.infix_cons_iff _ _ c]
    refine or_congr_left ?_
    rw [List.cons_prefix_cons, List.cons_prefix_cons, singleton_prefix_dropBefore_iff]
    constructor
    · rintro ⟨rfl, hd | hd⟩
      · rw [List.cons_prefix_cons] at hd
        exact absurd ⟨rfl, hd.1.symm⟩ hpair
      · exact ⟨rfl, hd⟩
    · rintro ⟨rfl, hd⟩
      exact ⟨rfl, Or.inr hd⟩

/-- A separator that the ending does not hold cuts off whatever stands before it. -/
theorem suffix_append_cons_iff {ending front t : Text} {sep : Char} (h : sep ∉ ending) :
    ending <:+ front ++ sep :: t ↔ ending <:+ t := by
  constructor
  · intro hsuffix
    rcases List.suffix_or_suffix_of_suffix hsuffix (List.suffix_append front (sep :: t)) with
      hshort | hlong
    · rcases List.suffix_cons_iff.mp hshort with rfl | hin
      · exact absurd List.mem_cons_self h
      · exact hin
    · exact absurd (hlong.subset List.mem_cons_self) h
  · intro hsuffix
    exact (hsuffix.trans (List.suffix_cons sep t)).trans (List.suffix_append front _)

end Text

/-! ### Sources without a semicolon -/

/-- No two semicolons in a row, and none at the start. -/
def Spaced (t : Text) : Prop :=
  ¬ [';', ';'] <:+: t ∧ t.head? ≠ some ';'

namespace Spaced

theorem append {s t : Text} (hs : Spaced s) (ht : Spaced t) : Spaced (s ++ t) := by
  constructor
  · obtain ⟨hs, -⟩ := hs
    induction s with
    | nil => exact ht.1
    | cons c s ih =>
      rw [List.infix_cons_iff, not_or] at hs
      rw [List.cons_append, List.infix_cons_iff]
      rintro (hstart | hlater)
      · rw [List.cons_prefix_cons] at hstart
        obtain ⟨rfl, hnext⟩ := hstart
        rcases s with - | ⟨d, s⟩
        · exact ht.2 (List.singleton_prefix_iff_head?_eq_some.mp hnext)
        · refine hs.1 ?_
          rw [List.cons_append, List.cons_prefix_cons] at hnext
          rw [List.cons_prefix_cons, List.cons_prefix_cons]
          exact ⟨rfl, hnext.1, List.nil_prefix⟩
      · exact ih hs.2 hlater
  · rcases s with - | ⟨c, s⟩
    · exact ht.2
    · exact hs.2

theorem of_append_left {s t : Text} (h : Spaced (s ++ t)) : Spaced s := by
  refine ⟨fun hin => h.1 (hin.trans (List.prefix_append s t).isInfix), ?_⟩
  rcases s with - | ⟨c, s⟩
  · simp
  · exact h.2

theorem of_not_mem {t : Text} (h : ';' ∉ t) : Spaced t := by
  constructor
  · intro hin
    exact h (hin.subset List.mem_cons_self)
  · intro hhead
    exact h (List.mem_of_head? hhead)

theorem semicolon {t : Text} (h : ';' ∉ t) (hne : t ≠ []) : Spaced (t ++ [';']) := by
  constructor
  · intro hin
    have hcount := hin.sublist.count_le ';'
    rw [List.count_append, List.count_eq_zero_of_not_mem h] at hcount
    simp at hcount
  · rcases t with - | ⟨c, t⟩
    · exact absurd rfl hne
    · intro hhead
      exact h (by cases hhead; exact List.mem_cons_self)

theorem flatMap {α : Type} {f : α → Text} {xs : List α} (h : ∀ x ∈ xs, Spaced (f x)) :
    Spaced (xs.flatMap f) := by
  induction xs with
  | nil => exact of_not_mem List.not_mem_nil
  | cons x rest ih =>
    rw [List.forall_mem_cons] at h
    exact h.1.append (ih h.2)

theorem braced {front body : Text} (hfront : ';' ∉ front) (h : Spaced body) :
    Spaced (front ++ Css.braced body) := by
  have hopening : Spaced ['\x7b'] := of_not_mem (by decide)
  have hclosing : Spaced ['\x7d'] := of_not_mem (by decide)
  exact (of_not_mem hfront).append (hopening.append (h.append hclosing))

end Spaced

namespace Css

theorem Declaration.spaced_write {d : Declaration} (h : Absent ';' d.texts) : Spaced d.write :=
  Spaced.semicolon (not_mem_pair h (by decide)) (by simp [pair])

theorem Block.spaced_write {b : Block} (h : Absent ';' b.texts) : Spaced b.write := by
  obtain ⟨hhead, hdeclarations⟩ := absent_cons.mp h
  refine Spaced.braced hhead (Spaced.flatMap ?_)
  intro d hd
  exact Declaration.spaced_write (absent_flatMap.mp hdeclarations d hd)

theorem Keyframes.spaced_write {k : Keyframes} (h : Absent ';' k.texts) : Spaced k.write := by
  obtain ⟨hname, hframes⟩ := absent_cons.mp h
  refine Spaced.braced ?_ (Spaced.flatMap ?_)
  · rw [List.mem_append, not_or]
    exact ⟨by decide, hname⟩
  · intro b hb
    exact Block.spaced_write (absent_flatMap.mp hframes b hb)

theorem FontFace.spaced_write {f : FontFace} (h : Absent ';' f.texts) : Spaced f.write := by
  refine Spaced.braced (by decide) (Spaced.of_append_left (t := [';']) ?_)
  change Spaced ([';'].intercalate f.parts ++ [';'])
  have hparts := absent_parts (by decide) h
  rw [parts, intercalate_append_sep]
  refine Spaced.flatMap ?_
  intro part hpart
  refine Spaced.semicolon (hparts part hpart) ?_
  rintro rfl
  simp [Declaration.pair] at hpart

theorem spaced_write {css : Css} (h : Absent ';' css.texts) : Spaced css.write := by
  simp only [texts, absent_append, absent_flatMap] at h
  obtain ⟨hrules, hkeyframes, hmotions, hfaces⟩ := h
  refine Spaced.append (Spaced.append (Spaced.append (Spaced.flatMap ?_) (Spaced.flatMap ?_)) ?_)
    (Spaced.flatMap ?_)
  · intro b hb
    exact Block.spaced_write (hrules b hb)
  · intro k hk
    exact Keyframes.spaced_write (hkeyframes k hk)
  · unfold writeReducedMotion
    split
    · exact Spaced.of_not_mem List.not_mem_nil
    · refine Spaced.braced (by decide) (Spaced.flatMap ?_)
      intro k hk
      exact Keyframes.spaced_write (hmotions k hk)
  · intro f hf
    exact FontFace.spaced_write (hfaces f hf)

end Css

/-! ### Sources without a closing brace -/

/-- Where a piece of text has two semicolons before a closing brace, whatever comes after it. -/
def Doubles (t : Text) (P : Prop) : Prop :=
  ∀ rest, [';', ';', '\x7d'] <:+: t ++ rest ↔ P ∨ [';', ';', '\x7d'] <:+: rest

namespace Doubles

variable {P Q : Prop}

theorem nil : Doubles [] False := by
  intro rest
  rw [List.nil_append, false_or]

theorem append {t u : Text} (ht : Doubles t P) (hu : Doubles u Q) : Doubles (t ++ u) (P ∨ Q) := by
  intro rest
  rw [List.append_assoc, ht, hu, or_assoc]

theorem congr {t : Text} (h : Doubles t P) (hPQ : P ↔ Q) : Doubles t Q := by
  intro rest
  rw [h, hPQ]

theorem flatMap {α : Type} {f : α → Text} {p : α → Prop} {xs : List α}
    (h : ∀ x ∈ xs, Doubles (f x) (p x)) : Doubles (xs.flatMap f) (∃ x ∈ xs, p x) := by
  induction xs with
  | nil => exact nil.congr (by simp)
  | cons x rest ih =>
    rw [List.forall_mem_cons] at h
    exact (h.1.append (ih h.2)).congr (by simp)

/-- Up to its first closing brace a text has the three characters in one place only: at the
    end. -/
theorem mark {t : Text} (h : '\x7d' ∉ t) {m : Char} (hm : m ≠ ';') :
    Doubles (t ++ [m]) (m = '\x7d' ∧ [';', ';'] <:+ t) := by
  intro rest
  induction t with
  | nil => simp [List.infix_cons_iff, hm.symm]
  | cons c t ih =>
    rw [List.mem_cons, not_or] at h
    -- the third character is the mark, or it is in `t` and no closing brace
    have hstart : [';', ';', '\x7d'] <+: c :: t ++ [m] ++ rest ↔
        m = '\x7d' ∧ [';', ';'] = c :: t := by
      rcases t with - | ⟨d, - | ⟨e, t⟩⟩
      · simp [hm.symm]
      · simp [and_comm, and_assoc, eq_comm]
      · have he : '\x7d' ≠ e := fun he => h.2 (by rw [he]; exact .tail _ (.head _))
        simp [he]
    rw [List.cons_append, List.cons_append, List.infix_cons_iff, ih h.2, List.suffix_cons_iff,
      and_or_left, or_assoc]
    exact or_congr_left hstart

theorem opening {t : Text} (h : '\x7d' ∉ t) : Doubles (t ++ ['\x7b']) False :=
  (mark h (by decide)).congr (by simp)

theorem closing {t : Text} (h : '\x7d' ∉ t) : Doubles (t ++ ['\x7d']) ([';', ';'] <:+ t) :=
  (mark h (by decide)).congr (by simp)

theorem braced {front body : Text} (hfront : '\x7d' ∉ front) (h : Doubles body P) :
    Doubles (front ++ Css.braced body) P := by
  have hlast : Doubles ['\x7d'] ([';', ';'] <:+ []) := closing List.not_mem_nil
  have hall := (((opening hfront).append h).append hlast).congr (Q := P) (by simp)
  simpa [Css.braced, List.append_assoc] using hall

theorem braced_plain {front body : Text} (hfront : '\x7d' ∉ front) (hbody : '\x7d' ∉ body) :
    Doubles (front ++ Css.braced body) ([';', ';'] <:+ body) := by
  have hall := ((opening hfront).append (closing hbody)).congr (by rw [false_or])
  simpa [Css.braced, List.append_assoc] using hall

end Doubles

namespace Css

/-- The value of the last declaration ends in a semicolon. -/
def Block.EndsInSemicolon (b : Block) : Prop :=
  ∃ d ∈ b.declarations.getLast?, d.value.getLast? = some ';'

instance (b : Block) : Decidable b.EndsInSemicolon :=
  inferInstanceAs (Decidable (∃ d ∈ b.declarations.getLast?, _))

/-- The value of the last descriptor ends in two semicolons. -/
def FontFace.EndsInSemicolons (f : FontFace) : Prop :=
  ∃ d ∈ f.descriptors.getLast?, [';', ';'] <:+ d.value

/-- The rules and the frames of a stylesheet. -/
def blocks (css : Css) : List Block :=
  css.rules ++ (css.keyframes ++ css.reducedMotion).flatMap Keyframes.frames

theorem Block.endsInSemicolon_iff (b : Block) :
    b.EndsInSemicolon ↔ [';', ';'] <:+ ended b.declarations := by
  obtain ⟨head, declarations⟩ := b
  rcases List.eq_nil_or_concat' declarations with rfl | ⟨earlier, d, rfl⟩
  · simp [EndsInSemicolon, ended]
  · have hended : ended (earlier ++ [d]) =
        ended earlier ++ d.property ++ ':' :: (d.value ++ [';']) := by
      simp [ended, Declaration.write, Declaration.pair]
    rw [hended, Text.suffix_append_cons_iff (by decide)]
    have hlast : EndsInSemicolon ⟨head, earlier ++ [d]⟩ ↔ d.value.getLast? = some ';' := by
      simp [EndsInSemicolon]
    rw [hlast, List.getLast?_eq_some_iff]
    constructor
    · rintro ⟨front, hvalue⟩
      exact ⟨front, by simp [hvalue]⟩
    · rintro ⟨front, heq⟩
      have hended : d.value ++ [';'] = front ++ [';'] ++ [';'] := by simp [← heq]
      exact ⟨front, List.append_cancel_right hended⟩

theorem Block.doubles_write {b : Block} (h : Absent '\x7d' b.texts) :
    Doubles b.write b.EndsInSemicolon := by
  obtain ⟨hhead, hdeclarations⟩ := absent_cons.mp h
  refine (Doubles.braced_plain hhead ?_).congr b.endsInSemicolon_iff.symm
  refine not_mem_flatMap ?_
  intro d hd
  rw [Declaration.write, List.mem_append, not_or]
  exact ⟨Declaration.not_mem_pair (absent_flatMap.mp hdeclarations d hd) (by decide), by decide⟩

theorem Keyframes.doubles_write {k : Keyframes} (h : Absent '\x7d' k.texts) :
    Doubles k.write (∃ b ∈ k.frames, b.EndsInSemicolon) := by
  obtain ⟨hname, hframes⟩ := absent_cons.mp h
  refine Doubles.braced ?_ (Doubles.flatMap ?_)
  · rw [List.mem_append, not_or]
    exact ⟨by decide, hname⟩
  · intro b hb
    exact Block.doubles_write (absent_flatMap.mp hframes b hb)

theorem doubles_reducedMotion {motions : List Keyframes}
    (h : ∀ k ∈ motions, Absent '\x7d' k.texts) :
    Doubles (writeReducedMotion motions) (∃ k ∈ motions, ∃ b ∈ k.frames, b.EndsInSemicolon) := by
  rcases motions with - | ⟨first, rest⟩
  · exact Doubles.nil.congr (by simp)
  · refine Doubles.braced (by decide) (Doubles.flatMap ?_)
    intro k hk
    exact Keyframes.doubles_write (h k hk)

theorem FontFace.endsInSemicolons_iff (f : FontFace) :
    f.EndsInSemicolons ↔ [';', ';'] <:+ [';'].intercalate f.parts := by
  obtain ⟨front, hfront⟩ := f.exists_append_ending
  rw [hfront]
  unfold EndsInSemicolons ending
  cases f.descriptors.getLast? with
  | none => simp [Text.suffix_append_cons_iff]
  | some d => simp [Text.suffix_append_cons_iff]

theorem FontFace.doubles_write {f : FontFace} (h : Absent '\x7d' f.texts) :
    Doubles f.write f.EndsInSemicolons := by
  have hbody : '\x7d' ∉ [';'].intercalate f.parts :=
    not_mem_intercalate (by decide) (absent_parts (by decide) h)
  exact (Doubles.braced_plain (by decide) hbody).congr f.endsInSemicolons_iff.symm

theorem exists_mem_blocks (css : Css) (p : Block → Prop) :
    (∃ b ∈ css.blocks, p b) ↔ ((∃ b ∈ css.rules, p b) ∨ ∃ k ∈ css.keyframes, ∃ b ∈ k.frames, p b) ∨
      ∃ k ∈ css.reducedMotion, ∃ b ∈ k.frames, p b := by
  grind [blocks]

theorem doubled_infix_write_iff {css : Css} (h : Absent '\x7d' css.texts) :
    [';', ';', '\x7d'] <:+: css.write ↔
      (∃ b ∈ css.blocks, b.EndsInSemicolon) ∨ ∃ f ∈ css.fontFaces, f.EndsInSemicolons := by
  simp only [texts, absent_append, absent_flatMap] at h
  obtain ⟨hrules, hkeyframes, hmotions, hfaces⟩ := h
  have hall : Doubles css.write _ :=
    (((Doubles.flatMap fun b hb => Block.doubles_write (hrules b hb)).append
      (Doubles.flatMap fun k hk => Keyframes.doubles_write (hkeyframes k hk))).append
      (doubles_reducedMotion hmotions)).append
      (Doubles.flatMap fun f hf => FontFace.doubles_write (hfaces f hf))
  have hwhole := hall []
  rw [List.append_nil] at hwhole
  rw [hwhole, exists_mem_blocks]
  simp

end Css

/-! ### Compilations -/

/-- **Where a semicolon is left before a closing brace.**  A source that can be read compiles
    both ways, and the minified stylesheet has a semicolon directly before a closing brace exactly
    if the plain one has two before one.  That does not happen if no token has a semicolon in it.
    If no token has a closing brace in it, it happens exactly if the last declaration of some rule
    or frame has a value that ends in a semicolon, or the last descriptor of some font one that
    ends in two. -/
theorem Compilation.semicolon_before_brace_iff (source : Text) (statements : List Statement)
    (hread : Source.read source = .ok statements) (options : Options) :
    ∃ plain tight : Compilation,
      ofSource { options with minify := false } source = .ok plain ∧
      ofSource { options with minify := true } source = .ok tight ∧
      plain.run = interpret options statements ∧ tight.run = interpret options statements ∧
      ([';', '\x7d'] <:+: tight.css ↔ [';', ';', '\x7d'] <:+: plain.css) ∧
      ((∀ statement ∈ statements, ∀ token ∈ statement.content, ';' ∉ token) →
        ¬ [';', '\x7d'] <:+: tight.css) ∧
      ((∀ statement ∈ statements, ∀ token ∈ statement.content, '\x7d' ∉ token) →
        ([';', '\x7d'] <:+: tight.css ↔
          (∃ b ∈ tight.run.state.sheet.css.blocks, b.EndsInSemicolon) ∨
            ∃ f ∈ tight.run.state.sheet.css.fontFaces, f.EndsInSemicolons)) := by
  have hfilled : (interpret options statements).state.sheet.Filled :=
    Run.filled_statements options.sourceName { strict := options.strict } statements
  have hpass : ∀ css : Css, [';', '\x7d'] <:+: css.writeTight ↔ [';', ';', '\x7d'] <:+: css.write :=
    fun css => Text.pair_infix_dropBefore_iff (by decide) css.write
  refine ⟨{ css := (interpret options statements).state.sheet.css.write
            run := interpret options statements },
    { css := (interpret options statements).state.sheet.css.writeTight
      run := interpret options statements }, ?_, ?_, rfl, rfl, hpass _, ?_, ?_⟩
  · exact ofSource_of_render hread (if_pos hfilled.isDecided)
  · exact ofSource_of_render hread (if_pos hfilled.isDecided)
  · intro htokens htight
    have hspaced := Css.spaced_write
      (absent_css (by decide) (by decide) (by decide) htokens options)
    have htwo : [';', ';'] <:+: [';', ';', '\x7d'] := by decide
    exact hspaced.1 (htwo.trans ((hpass _).mp htight))
  · intro htokens
    rw [hpass]
    exact Css.doubled_infix_write_iff
      (absent_css (by decide) (by decide) (by decide) htokens options)

/-- A value in a frame that ends in a semicolon, beside a comment with a brace in it; and a source
    with no semicolon at all. -/
theorem Compilation.semicolon_before_brace_iff_frame :
    let framed : List Statement :=
      [{ content := ["#".toList, "k".toList], index := some 1 },
       { content := ["!type".toList, "animation".toList], index := some 2 },
       { content := ["$".toList, "from".toList, "top,left".toList, "0;".toList], index := some 3 }]
    let plainly : List Statement :=
      [{ content := ["$".toList, ".a".toList, "color".toList, "red".toList], index := some 1 }]
    (∃ tight, ofSource { minify := true }
        "# k\n!type animation\n$ from top,left 0; // ;\x7d".toList = .ok tight ∧
      tight.run = interpret {} framed ∧ [';', '\x7d'] <:+: tight.css) ∧
    ∃ tight, ofSource { minify := true } "$ .a color red".toList = .ok tight ∧
      tight.run = interpret {} plainly ∧ ¬ [';', '\x7d'] <:+: tight.css := by
  intro framed plainly
  have hframe : ∃ b ∈ (interpret {} framed).state.sheet.css.blocks, b.EndsInSemicolon := by
    decide +kernel
  constructor
  · obtain ⟨-, tight, -, htight, -, hrun, -, -, hiff⟩ := semicolon_before_brace_iff
      "# k\n!type animation\n$ from top,left 0; // ;\x7d".toList framed (by decide +kernel) {}
    refine ⟨tight, htight, hrun, (hiff (by decide +kernel)).mpr (Or.inl ?_)⟩
    rw [hrun]
    exact hframe
  · obtain ⟨-, tight, -, htight, -, hrun, -, hnone, -⟩ := semicolon_before_brace_iff
      "$ .a color red".toList plainly (by decide +kernel) {}
    exact ⟨tight, htight, hrun, hnone (by decide +kernel)⟩

/-- A value that ends in a semicolon leaves one before the closing brace. -/
theorem Compilation.minified_semicolon_kept :
    (ofSource { minify := true } "$ .a color red;".toList).map css =
        .ok ".a\x7bcolor:red;\x7d".toList ∧
      [';', '\x7d'] <:+: ".a\x7bcolor:red;\x7d".toList := by
  decide +kernel

end Dyehouse
