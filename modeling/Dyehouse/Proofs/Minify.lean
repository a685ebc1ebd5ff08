import Dyehouse.Proofs.Quoting
import Dyehouse.Proofs.Texts

/-!
# Minifying by text and by structure

A stylesheet is minified by going over its text once and dropping every semicolon that stands
directly before a closing brace.  The text knows nothing of declarations, so it has to be said
why this drops the last semicolon of every block and nothing else.

`Tightens` says what the pass makes of a piece of text whatever comes after it.  Pieces are put
together (`Tightens.append`), so the pass is followed block by block, and a block with no
closing brace in its texts comes out as if its declarations had been joined by semicolons in the
first place.  Fonts are joined to begin with, and come out as they are if their last descriptor
does not end in a semicolon itself.
-/

namespace Dyehouse

/-! ### Two ways to write the declarations of a block -/

namespace Css

/-- Declarations, each of them ended by a semicolon. -/
def ended (declarations : List Declaration) : Text :=
  declarations.flatMap Declaration.write

/-- Declarations with semicolons only between them. -/
def joined (declarations : List Declaration) : Text :=
  [';'].intercalate (declarations.map Declaration.pair)

section

variable (body : List Declaration → Text)

def Block.writeWith (b : Block) : Text :=
  b.head ++ braced (body b.declarations)

def Keyframes.writeWith (k : Keyframes) : Text :=
  "@keyframes ".toList ++ k.name ++ braced (k.frames.flatMap (Block.writeWith body))

def writeReducedMotionWith (motions : List Keyframes) : Text :=
  if motions.isEmpty then []
  else "@media (prefers-reduced-motion)".toList ++
    braced (motions.flatMap (Keyframes.writeWith body))

/-- The stylesheet as text, with the declarations of rules and frames written as given. -/
def writeWith (css : Css) : Text :=
  css.rules.flatMap (Block.writeWith body) ++ css.keyframes.flatMap (Keyframes.writeWith body) ++
    writeReducedMotionWith body css.reducedMotion ++ css.fontFaces.flatMap FontFace.write

end

theorem writeWith_ended (css : Css) : css.writeWith ended = css.write := rfl

theorem joined_append_semicolon {declarations : List Declaration} (h : declarations ≠ []) :
    joined declarations ++ [';'] = ended declarations := by
  obtain ⟨first, rest, rfl⟩ := List.exists_cons_of_ne_nil h
  rw [joined, List.map_cons, intercalate_append_sep, ended, ← List.map_cons, List.flatMap_map]
  rfl

end Css

/-! ### Following the pass over a text -/

/-- What dropping semicolons before closing braces makes of a piece of text, whatever comes
    after it. -/
def Tightens (loose tight : Text) : Prop :=
  ∀ rest, Text.dropBefore ';' '\x7d' (loose ++ rest) = tight ++ Text.dropBefore ';' '\x7d' rest

namespace Tightens

theorem nil : Tightens [] [] :=
  fun _ => rfl

theorem append {loose tight loose' tight' : Text} (h : Tightens loose tight)
    (h' : Tightens loose' tight') : Tightens (loose ++ loose') (tight ++ tight') := by
  intro rest
  rw [List.append_assoc, h, h', List.append_assoc]

theorem flatMap {α : Type} {f g : α → Text} {xs : List α} (h : ∀ x ∈ xs, Tightens (f x) (g x)) :
    Tightens (xs.flatMap f) (xs.flatMap g) := by
  induction xs with
  | nil => exact nil
  | cons x rest ih =>
    rw [List.forall_mem_cons] at h
    exact h.1.append (ih h.2)

theorem closing : Tightens ['\x7d'] ['\x7d'] :=
  fun rest => Text.dropBefore_cons_of_ne _ (by decide) rest

/-- A text with no closing brace in it stays as it is, unless its last character is a semicolon
    that depends on what comes next. -/
theorem self {t : Text} (h : '\x7d' ∉ t) (hlast : t.getLast? ≠ some ';') : Tightens t t := by
  intro rest
  induction t with
  | nil => rfl
  | cons c t ih =>
    rw [List.mem_cons, not_or] at h
    cases t with
    | nil =>
      have hc : c ≠ ';' := fun hc => hlast (by rw [hc]; rfl)
      exact Text.dropBefore_cons_of_ne _ hc rest
    | cons d t =>
      -- whether `c` stays is decided by `d`, which is no closing brace
      have hhead : (d :: t ++ rest).head? ≠ some '\x7d' := by
        intro hd
        cases hd
        exact h.2 List.mem_cons_self
      rw [List.getLast?_cons_cons] at hlast
      rw [List.cons_append, Text.dropBefore_cons_of_head?_ne _ _ hhead, ih h.2 hlast]
      rfl

/-- A semicolon at the end of a block is dropped, and nothing else in it. -/
theorem semicolon {t : Text} (h : '\x7d' ∉ t) :
    Tightens (t ++ [';', '\x7d']) (t ++ ['\x7d']) := by
  intro rest
  induction t with
  | nil => exact Text.dropBefore_pair ';' '\x7d' rest
  | cons c t ih =>
    rw [List.mem_cons, not_or] at h
    have hhead : (t ++ [';', '\x7d'] ++ rest).head? ≠ some '\x7d' := by
      cases t with
      | nil => simp
      | cons d t =>
        intro hd
        cases hd
        exact h.2 List.mem_cons_self
    rw [List.cons_append, List.cons_append, Text.dropBefore_cons_of_head?_ne _ _ hhead, ih h.2]
    rfl

theorem opening {t : Text} (h : '\x7d' ∉ t) : Tightens (t ++ ['\x7b']) (t ++ ['\x7b']) := by
  refine self ?_ ?_
  · rw [List.mem_append, List.mem_singleton, not_or]
    exact ⟨h, by decide⟩
  · rw [List.getLast?_concat]
    decide

theorem braced {front loose tight : Text} (hfront : '\x7d' ∉ front) (h : Tightens loose tight) :
    Tightens (front ++ Css.braced loose) (front ++ Css.braced tight) := by
  have hall := ((opening hfront).append h).append closing
  simpa [Css.braced, List.append_assoc] using hall

end Tightens

/-! ### The parts of a stylesheet -/

namespace Css

theorem closing_not_mem_joined {declarations : List Declaration}
    (h : Absent '\x7d' (declarations.flatMap Declaration.texts)) : '\x7d' ∉ joined declarations := by
  refine not_mem_intercalate (by decide) ?_
  intro pair hpair
  obtain ⟨d, hd, rfl⟩ := List.mem_map.mp hpair
  exact Declaration.not_mem_pair (absent_flatMap.mp h d hd) (by decide)

theorem Block.tightens {b : Block} (h : Absent '\x7d' b.texts) :
    Tightens (b.writeWith ended) (b.writeWith joined) := by
  obtain ⟨hhead, hdeclarations⟩ := absent_cons.mp h
  have hbody : Tightens (ended b.declarations ++ ['\x7d'])
      (joined b.declarations ++ ['\x7d']) := by
    by_cases hnil : b.declarations = []
    · rw [hnil]
      exact Tightens.closing
    · rw [← joined_append_semicolon hnil, List.append_assoc]
      exact Tightens.semicolon (closing_not_mem_joined hdeclarations)
  have hall := (Tightens.opening hhead).append hbody
  simpa [writeWith, Css.braced, List.append_assoc] using hall

theorem Keyframes.tightens {k : Keyframes} (h : Absent '\x7d' k.texts) :
    Tightens (k.writeWith ended) (k.writeWith joined) := by
  obtain ⟨hname, hframes⟩ := absent_cons.mp h
  refine Tightens.braced ?_ (Tightens.flatMap ?_)
  · rw [List.mem_append, not_or]
    exact ⟨by decide, hname⟩
  · intro b hb
    exact Block.tightens (absent_flatMap.mp hframes b hb)

theorem tightens_reducedMotion {motions : List Keyframes}
    (h : ∀ k ∈ motions, Absent '\x7d' k.texts) :
    Tightens (writeReducedMotionWith ended motions) (writeReducedMotionWith joined motions) := by
  unfold writeReducedMotionWith
  split
  · exact Tightens.nil
  · refine Tightens.braced (by decide) (Tightens.flatMap ?_)
    intro k hk
    exact Keyframes.tightens (h k hk)

theorem intercalate_concat (sep : Char) (front : List Text) (last : Text) :
    [sep].intercalate (front ++ [last]) = front.flatMap (· ++ [sep]) ++ last := by
  have hended : [sep].intercalate (front ++ [last]) ++ [sep] =
      front.flatMap (· ++ [sep]) ++ last ++ [sep] := by
    cases front with
    | nil => simp
    | cons first rest =>
      rw [List.cons_append, intercalate_append_sep, ← List.cons_append, List.flatMap_append,
        List.flatMap_singleton, List.append_assoc]
  exact List.append_cancel_right hended

/-- How the body of a font ends: with the value of its last descriptor, if it has one. -/
def FontFace.ending (f : FontFace) : Text :=
  match f.descriptors.getLast? with
  | none => [')']
  | some d => ':' :: d.value

theorem FontFace.exists_append_ending (f : FontFace) :
    ∃ front, [';'].intercalate f.parts = front ++ f.ending := by
  obtain ⟨family, source, descriptors⟩ := f
  rcases List.eq_nil_or_concat' descriptors with rfl | ⟨earlier, d, rfl⟩
  · refine ⟨"font-family:".toList ++ family ++ ';' :: ("src:url(".toList ++ source), ?_⟩
    simp [parts, ending, List.intercalate]
  · let front := ("font-family:".toList ++ family) :: ("src:url(".toList ++ source ++ [')']) ::
      earlier.map Declaration.pair
    refine ⟨front.flatMap (· ++ [';']) ++ d.property, ?_⟩
    have hparts : parts ⟨family, source, earlier ++ [d]⟩ = front ++ [d.pair] := by
      simp [parts, front]
    rw [hparts, intercalate_concat]
    simp [ending, Declaration.pair]

/-- No descriptor of the font has a value that ends in a semicolon. -/
def FontFace.EndsPlainly (f : FontFace) : Prop :=
  ∀ d ∈ f.descriptors, d.value.getLast? ≠ some ';'

theorem FontFace.EndsPlainly.getLast?_ending {f : FontFace} (h : f.EndsPlainly) :
    f.ending ≠ [] ∧ f.ending.getLast? ≠ some ';' := by
  unfold ending
  split
  · exact ⟨by simp, by decide⟩
  · next d hd =>
    have hvalue := h d (List.mem_of_getLast? hd)
    refine ⟨List.cons_ne_nil _ _, ?_⟩
    cases hcases : d.value with
    | nil => decide
    | cons c rest =>
      rw [hcases] at hvalue
      rwa [List.getLast?_cons_cons]

theorem FontFace.tightens {f : FontFace} (h : Absent '\x7d' f.texts) (hplain : f.EndsPlainly) :
    Tightens f.write f.write := by
  have hbody : '\x7d' ∉ [';'].intercalate f.parts :=
    not_mem_intercalate (by decide) (absent_parts (by decide) h)
  refine Tightens.braced (by decide) (Tightens.self hbody ?_)
  obtain ⟨front, hfront⟩ := f.exists_append_ending
  obtain ⟨hne, hlast⟩ := hplain.getLast?_ending
  change ([';'].intercalate f.parts).getLast? ≠ some ';'
  rw [hfront, List.getLast?_append_of_ne_nil _ hne]
  exact hlast

/-- **Going over the text once is joining the declarations.**  Without a closing brace in its
    texts, a stylesheet is minified as if no semicolon had been written after the last
    declaration of a block. -/
theorem writeTight_eq_joined {css : Css} (h : Absent '\x7d' css.texts)
    (hfonts : ∀ f ∈ css.fontFaces, f.EndsPlainly) : css.writeTight = css.writeWith joined := by
  simp only [texts, absent_append, absent_flatMap] at h
  obtain ⟨hrules, hkeyframes, hmotions, hfaces⟩ := h
  have hall : Tightens (css.writeWith ended) (css.writeWith joined) := by
    refine Tightens.append (Tightens.append (Tightens.append (Tightens.flatMap ?_)
      (Tightens.flatMap ?_)) (tightens_reducedMotion hmotions)) (Tightens.flatMap ?_)
    · intro b hb
      exact Block.tightens (hrules b hb)
    · intro k hk
      exact Keyframes.tightens (hkeyframes k hk)
    · intro f hf
      exact FontFace.tightens (hfaces f hf) (hfonts f hf)
  have hpass := hall []
  rw [List.append_nil, writeWith_ended] at hpass
  rw [writeTight, hpass]
  exact List.append_nil _

end Css

/-! ### Sheets -/

theorem Font.endsPlainly {family : Text} {font : Font} {face : Css.FontFace}
    (h : ∀ descriptor ∈ font.descriptors.entries, descriptor.2.getLast? ≠ some ';')
    (hface : font.face? family = some face) : face.EndsPlainly := by
  unfold Font.face? at hface
  split at hface
  · cases hface
  · split at hface
    · cases hface
    · cases hface
      intro d hd
      obtain ⟨descriptor, hdescriptor, rfl⟩ := List.mem_map.mp hd
      exact h descriptor hdescriptor

/-- **Minifying by text equals minifying by structure.**  For a sheet in which every property of
    every style has a value, no text has a closing brace in it and no descriptor of a font ends in
    a semicolon, both ways to write it down succeed: the plain one ends every declaration of a
    rule or a frame by a semicolon, and the minified one is the same text with the declarations
    of each rule and frame joined by semicolons instead. -/
theorem Sheet.minified_by_structure (sheet : Sheet)
    (hcandidates : ∀ style ∈ sheet.styles.entries, ∀ property ∈ style.2.entries,
      property.2 ≠ #[])
    (hclosing : ∀ text ∈ sheet.texts, '\x7d' ∉ text)
    (hdescriptors : ∀ font ∈ sheet.fonts.entries, ∀ descriptor ∈ font.2.descriptors.entries,
      descriptor.2.getLast? ≠ some ';') :
    sheet.render false = .ok (sheet.css.writeWith Css.ended) ∧
      sheet.render true = .ok (sheet.css.writeWith Css.joined) := by
  have hdecided := isDecided_iff.mpr hcandidates
  have htight : sheet.css.writeTight = sheet.css.writeWith Css.joined := by
    refine Css.writeTight_eq_joined (absent_css hclosing (by decide) (by decide)) ?_
    intro face hface
    obtain ⟨font, hfont, hshown⟩ := List.mem_filterMap.mp hface
    exact Font.endsPlainly (hdescriptors font hfont) hshown
  constructor
  · exact if_pos hdecided
  · rw [← htight]
    exact if_pos hdecided

/-- Values that end in a semicolon keep theirs, in a rule and in a frame; a font with a semicolon
    inside a descriptor is left alone. -/
theorem Sheet.minified_by_structure_nested :
    let sheet := Sheet.applyAll {}
      [.style ".a".toList "color".toList "red".toList, .style ".a".toList "top".toList "0;".toList,
       .keyframe "k".toList "from".toList "left".toList "1;".toList,
       .motion "k".toList "to".toList "left".toList "2".toList,
       .fontSource "F".toList "f".toList, .fontDescriptor "F".toList "x".toList "a;b".toList]
    let tight := ".a\x7bcolor:red;top:0;\x7d@keyframes k\x7bfrom\x7bleft:1;\x7d\x7d".toList ++
      "@media (prefers-reduced-motion)\x7b@keyframes k\x7bto\x7bleft:2\x7d\x7d\x7d".toList ++
      "@font-face\x7bfont-family:F;src:url(f);x:a;b\x7d".toList
    (∀ text ∈ sheet.texts, '\x7d' ∉ text) ∧ sheet.render true = .ok tight ∧
      sheet.css.writeWith Css.joined = tight := by
  intro sheet tight
  have hclosing : Absent '\x7d' sheet.texts := by decide +kernel
  have hjoined : sheet.css.writeWith Css.joined = tight := by decide +kernel
  refine ⟨hclosing, ?_, hjoined⟩
  rw [← hjoined]
  exact (minified_by_structure sheet (by decide +kernel) hclosing (by decide +kernel)).2

end Dyehouse
