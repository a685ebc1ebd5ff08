import Dyehouse.Proofs.Keys
import Dyehouse.Proofs.Unambiguous

/-!
# The texts of a sheet

The names and values that a sheet or a stylesheet holds, as one list.  A character that stands in
none of them is followed from the edits into the sheet (`Sheet.absent_apply`), from the sheet into
what it shows (`Sheet.absent_css`), and from there into the text that is written
(`Css.not_mem_write`).  On the way only the spelling of properties changes, which brings in
dashes and small letters, and the marks of the format are put between the texts.
-/

namespace Dyehouse

/-- The character stands in none of the texts. -/
def Absent (c : Char) (texts : List Text) : Prop :=
  ∀ t ∈ texts, c ∉ t

instance (c : Char) (texts : List Text) : Decidable (Absent c texts) :=
  List.decidableBAll (fun t => c ∉ t) texts

section

variable {c : Char}

@[simp] theorem absent_nil : Absent c [] :=
  List.forall_mem_nil _

@[simp] theorem absent_cons {t : Text} {texts : List Text} :
    Absent c (t :: texts) ↔ c ∉ t ∧ Absent c texts :=
  List.forall_mem_cons

@[simp] theorem absent_append {texts more : List Text} :
    Absent c (texts ++ more) ↔ Absent c texts ∧ Absent c more :=
  List.forall_mem_append

@[simp] theorem absent_flatMap {α : Type} {f : α → List Text} {xs : List α} :
    Absent c (xs.flatMap f) ↔ ∀ x ∈ xs, Absent c (f x) :=
  List.forall_mem_flatMap

end

/-! ### What holds texts -/

/-- The names of a table, each with the texts of its value. -/
def Table.texts {α : Type} (f : α → List Text) (t : Table α) : List Text :=
  t.entries.flatMap fun entry => entry.1 :: f entry.2

/-- The names of a table, each with the text that is its value. -/
def Table.words (t : Table Text) : List Text :=
  t.texts fun value => [value]

def Style.texts (style : Style) : List Text :=
  Table.texts Array.toList style

def Frames.texts (frames : Frames) : List Text :=
  Table.texts Table.words frames

def Font.texts (font : Font) : List Text :=
  font.source.toList ++ font.descriptors.words

/-- Every selector, name, label, property, value, family and source of a sheet. -/
def Sheet.texts (sheet : Sheet) : List Text :=
  sheet.styles.texts Style.texts ++ (sheet.animations.texts Frames.texts ++
    (sheet.motions.texts Frames.texts ++ sheet.fonts.texts Font.texts))

namespace Table

variable {α : Type} {c : Char} {f : α → List Text}

theorem absent_texts {t : Table α} :
    Absent c (t.texts f) ↔ ∀ entry ∈ t.entries, c ∉ entry.1 ∧ Absent c (f entry.2) := by
  simp only [texts, absent_flatMap, absent_cons]

theorem absent_words {t : Table Text} :
    Absent c t.words ↔ ∀ entry ∈ t.entries, c ∉ entry.1 ∧ c ∉ entry.2 := by
  simp only [words, absent_texts, absent_cons, absent_nil, and_true]

@[simp] theorem words_empty : (∅ : Table Text).words = [] := rfl

/-- A write brings in its name and the texts of the value that it leaves. -/
theorem absent_alter {t : Table α} {name : Text} {g : Option α → α} (h : Absent c (t.texts f))
    (hname : c ∉ name) (hnew : Absent c (f (g none)))
    (hold : ∀ value, Absent c (f value) → Absent c (f (g (some value)))) :
    Absent c ((t.alter name g).texts f) := by
  rw [absent_texts] at h ⊢
  intro entry hentry
  constructor
  · have hmem : entry.1 ∈ (t.alter name g).names := List.mem_map_of_mem hentry
    rw [names_alter] at hmem
    have hnames : ∀ other ∈ t.names, c ∉ other := by
      intro other hother
      obtain ⟨old, hin, rfl⟩ := List.mem_map.mp hother
      exact (h old hin).1
    split at hmem
    · exact hnames _ hmem
    · rcases List.mem_append.mp hmem with hin | hlast
      · exact hnames _ hin
      · rwa [List.mem_singleton.mp hlast]
  · exact forall_mem_alter (P := fun value => Absent c (f value)) (fun old hin => (h old hin).2)
      hnew hold entry hentry

theorem absent_insert {t : Table Text} {name value : Text} (h : Absent c t.words)
    (hname : c ∉ name) (hvalue : c ∉ value) : Absent c (t.insert name value).words := by
  have hsingle : Absent c [value] := by simpa using hvalue
  exact absent_alter h hname hsingle fun _ _ => hsingle

theorem absent_of_get? {t : Table α} {name : Text} {value : α} (h : Absent c (t.texts f))
    (hget : t.get? name = some value) : Absent c (f value) :=
  (absent_texts.mp h _ (mem_of_get?_eq_some hget)).2

end Table

/-! ### Edits of a sheet -/

/-- The texts that an edit brings along. -/
def Edit.texts : Edit → List Text
  | style selector property value => [selector, property, value]
  | keyframe name label property value | motion name label property value =>
    [name, label, property, value]
  | fontSource family source => [family, source]
  | fontDescriptor family property value => [family, property, value]
  | copyClass selectors _ => selectors

namespace Sheet

variable {c : Char} {sheet : Sheet}

theorem absent_texts :
    Absent c sheet.texts ↔ Absent c (sheet.styles.texts Style.texts) ∧
      Absent c (sheet.animations.texts Frames.texts) ∧
      Absent c (sheet.motions.texts Frames.texts) ∧ Absent c (sheet.fonts.texts Font.texts) := by
  simp only [texts, absent_append]

theorem absent_addValue {selector property value : Text} (h : Absent c sheet.texts)
    (hselector : c ∉ selector) (hproperty : c ∉ property) (hvalue : c ∉ value) :
    Absent c (sheet.addValue selector property value).texts := by
  have hadd : ∀ style : Style, Absent c style.texts →
      Absent c (style.add property value).texts := by
    intro style hstyle
    refine Table.absent_alter hstyle hproperty ?_ ?_
    · simpa using hvalue
    · intro values hvalues
      simpa using ⟨hvalues, hvalue⟩
  rw [absent_texts] at h ⊢
  refine ⟨Table.absent_alter h.1 hselector ?_ ?_, h.2⟩
  · exact hadd ∅ absent_nil
  · exact hadd

theorem absent_addCandidates {candidates : List Candidate} (h : Absent c sheet.texts)
    (hin : ∀ d ∈ candidates, c ∉ d.selector ∧ c ∉ d.property ∧ c ∉ d.value) :
    Absent c (sheet.addCandidates candidates).texts := by
  induction candidates generalizing sheet with
  | nil => exact h
  | cons candidate rest ih =>
    rw [List.forall_mem_cons] at hin
    obtain ⟨⟨hselector, hproperty, hvalue⟩, hrest⟩ := hin
    exact ih (absent_addValue h hselector hproperty hvalue) hrest

theorem absent_findClass? {name : Text} {style : Style} (h : Absent c sheet.texts)
    (hstyle : sheet.findClass? name = some style) : Absent c style.texts := by
  rw [absent_texts] at h
  rcases Option.or_eq_some_iff.mp hstyle with hdot | ⟨-, hbare⟩
  · exact Table.absent_of_get? h.1 hdot
  · exact Table.absent_of_get? h.1 hbare

theorem absent_copyClass {selectors : List Text} (h : Absent c sheet.texts)
    (hselectors : Absent c selectors) (name : Text) :
    Absent c ((sheet.applyClass? selectors name).getD sheet).texts := by
  unfold applyClass?
  cases hclass : sheet.findClass? name with
  | none => exact h
  | some style =>
    have hstyle := Table.absent_texts.mp (absent_findClass? h hclass)
    refine absent_addCandidates h ?_
    -- properties and values are those of the class, only the selectors are new
    intro candidate hcandidate
    simp only [Candidate.ofStyle, Candidate.spread, List.mem_flatMap, List.mem_map] at hcandidate
    obtain ⟨entry, hentry, value, hvalue, selector, hselector, rfl⟩ := hcandidate
    obtain ⟨hproperty, hvalues⟩ := hstyle entry hentry
    refine ⟨?_, hproperty, hvalues value hvalue⟩
    obtain ⟨text, htext, rfl⟩ := List.mem_map.mp (List.mem_of_mem_filter hselector)
    exact fun hmem => hselectors text htext (Text.mem_of_mem_strip hmem)

theorem absent_alter_set {table : Table Frames} {name label property value : Text}
    (h : Absent c (table.texts Frames.texts)) (hname : c ∉ name) (hlabel : c ∉ label)
    (hproperty : c ∉ property) (hvalue : c ∉ value) :
    Absent c ((table.alter name fun frames =>
      Frames.set (frames.getD ∅) label property value).texts Frames.texts) := by
  have hset : ∀ frames : Frames, Absent c frames.texts →
      Absent c (frames.set label property value).texts := by
    intro frames hframes
    refine Table.absent_alter hframes ?_ ?_ ?_
    · exact fun hmem => hlabel (Text.mem_of_mem_strip hmem)
    · exact Table.absent_insert absent_nil hproperty hvalue
    · intro frame hframe
      exact Table.absent_insert hframe hproperty hvalue
  exact Table.absent_alter h hname (hset ∅ absent_nil) hset

theorem absent_setFontSource {family source : Text} (h : Absent c sheet.texts)
    (hfamily : c ∉ family) (hsource : c ∉ source) :
    Absent c (sheet.setFontSource family source).texts := by
  rw [absent_texts] at h ⊢
  refine ⟨h.1, h.2.1, h.2.2.1, Table.absent_alter h.2.2.2 hfamily ?_ ?_⟩
  · simpa [Font.texts] using hsource
  · intro font hfont
    rw [Font.texts, absent_append] at hfont
    simpa [Font.texts] using ⟨hsource, hfont.2⟩

theorem absent_setFontDescriptor {family property value : Text} (h : Absent c sheet.texts)
    (hfamily : c ∉ family) (hproperty : c ∉ property) (hvalue : c ∉ value) :
    Absent c (sheet.setFontDescriptor family property value).texts := by
  rw [absent_texts] at h ⊢
  refine ⟨h.1, h.2.1, h.2.2.1, Table.absent_alter h.2.2.2 hfamily ?_ ?_⟩
  · exact Table.absent_insert absent_nil hproperty hvalue
  · intro font hfont
    rw [Font.texts, absent_append] at hfont ⊢
    exact ⟨hfont.1, Table.absent_insert hfont.2 hproperty hvalue⟩

theorem absent_apply {edit : Edit} (h : Absent c sheet.texts) (hedit : Absent c edit.texts) :
    Absent c (sheet.apply edit).texts := by
  cases edit with
  | style selector property value =>
    obtain ⟨hselector, hproperty, hvalue⟩ : c ∉ selector ∧ c ∉ property ∧ c ∉ value := by
      simpa [Edit.texts] using hedit
    exact absent_addValue h hselector hproperty hvalue
  | keyframe name label property value =>
    obtain ⟨hname, hlabel, hproperty, hvalue⟩ :
        c ∉ name ∧ c ∉ label ∧ c ∉ property ∧ c ∉ value := by
      simpa [Edit.texts] using hedit
    rw [absent_texts] at h ⊢
    exact ⟨h.1, absent_alter_set h.2.1 hname hlabel hproperty hvalue, h.2.2⟩
  | motion name label property value =>
    obtain ⟨hname, hlabel, hproperty, hvalue⟩ :
        c ∉ name ∧ c ∉ label ∧ c ∉ property ∧ c ∉ value := by
      simpa [Edit.texts] using hedit
    rw [absent_texts] at h ⊢
    exact ⟨h.1, h.2.1, absent_alter_set h.2.2.1 hname hlabel hproperty hvalue, h.2.2.2⟩
  | fontSource family source =>
    obtain ⟨hfamily, hsource⟩ : c ∉ family ∧ c ∉ source := by simpa [Edit.texts] using hedit
    exact absent_setFontSource h hfamily hsource
  | fontDescriptor family property value =>
    obtain ⟨hfamily, hproperty, hvalue⟩ : c ∉ family ∧ c ∉ property ∧ c ∉ value := by
      simpa [Edit.texts] using hedit
    exact absent_setFontDescriptor h hfamily hproperty hvalue
  | copyClass selectors name => exact absent_copyClass h hedit name

theorem absent_applyAll {edits : List Edit} (h : Absent c sheet.texts)
    (hedits : ∀ edit ∈ edits, Absent c edit.texts) : Absent c (sheet.applyAll edits).texts := by
  induction edits generalizing sheet with
  | nil => exact h
  | cons edit rest ih =>
    rw [List.forall_mem_cons] at hedits
    exact ih (absent_apply h hedits.1) hedits.2

end Sheet

/-! ### Stylesheets -/

namespace Css

def Declaration.texts (d : Declaration) : List Text :=
  [d.property, d.value]

def Block.texts (b : Block) : List Text :=
  b.head :: b.declarations.flatMap Declaration.texts

def Keyframes.texts (k : Keyframes) : List Text :=
  k.name :: k.frames.flatMap Block.texts

def FontFace.texts (f : FontFace) : List Text :=
  f.family :: f.source :: f.descriptors.flatMap Declaration.texts

/-- Every selector, name, label, property, value, family and source of a stylesheet. -/
def texts (css : Css) : List Text :=
  css.rules.flatMap Block.texts ++ (css.keyframes.flatMap Keyframes.texts ++
    (css.reducedMotion.flatMap Keyframes.texts ++ css.fontFaces.flatMap FontFace.texts))

/-- What the format puts between the texts of one part of a font. -/
def partMarks : List Text :=
  ["font-family:".toList, "src:url(".toList, [')'], [':']]

/-- What the format puts between the texts. -/
def marks : List Text :=
  ["@keyframes ".toList, "@media (prefers-reduced-motion)".toList, "@font-face".toList,
   ['\x7b'], ['\x7d'], [';']] ++ partMarks

variable {c : Char}

theorem ne_of_absent_marks (hc : Absent c marks) :
    c ≠ '\x7b' ∧ c ≠ '\x7d' ∧ c ≠ ':' ∧ c ≠ ';' := by
  simp only [marks, partMarks, absent_append, absent_cons, List.mem_singleton] at hc
  obtain ⟨⟨-, -, -, hopening, hclosing, hsemicolon, -⟩, -, -, -, hcolon, -⟩ := hc
  exact ⟨hopening, hclosing, hcolon, hsemicolon⟩

theorem not_mem_flatMap {α : Type} {f : α → Text} {xs : List α} (h : ∀ x ∈ xs, c ∉ f x) :
    c ∉ xs.flatMap f := by
  intro hmem
  obtain ⟨x, hx, hin⟩ := List.mem_flatMap.mp hmem
  exact h x hx hin

theorem not_mem_braced {body : Text} (hc : Absent c marks) (hbody : c ∉ body) :
    c ∉ braced body := by
  obtain ⟨hopening, hclosing, -, -⟩ := ne_of_absent_marks hc
  simp only [braced, List.mem_cons, List.mem_append, List.not_mem_nil, or_false, not_or]
  exact ⟨hopening, hbody, hclosing⟩

theorem Declaration.not_mem_pair {d : Declaration} (h : Absent c d.texts) (hcolon : c ≠ ':') :
    c ∉ d.pair := by
  obtain ⟨hproperty, hvalue⟩ : c ∉ d.property ∧ c ∉ d.value := by simpa [texts] using h
  simp only [pair, List.mem_append, List.mem_cons, not_or]
  exact ⟨hproperty, hcolon, hvalue⟩

theorem Block.not_mem_write {b : Block} (hc : Absent c marks) (h : Absent c b.texts) :
    c ∉ b.write := by
  obtain ⟨-, -, hcolon, hsemicolon⟩ := ne_of_absent_marks hc
  rw [texts, absent_cons, absent_flatMap] at h
  rw [write, List.mem_append, not_or]
  refine ⟨h.1, not_mem_braced hc (not_mem_flatMap ?_)⟩
  intro d hd
  rw [Declaration.write, List.mem_append, List.mem_singleton, not_or]
  exact ⟨Declaration.not_mem_pair (h.2 d hd) hcolon, hsemicolon⟩

theorem Keyframes.not_mem_write {k : Keyframes} (hc : Absent c marks) (h : Absent c k.texts) :
    c ∉ k.write := by
  rw [texts, absent_cons, absent_flatMap] at h
  change c ∉ "@keyframes ".toList ++ k.name ++ braced (k.frames.flatMap Block.write)
  simp only [List.mem_append, not_or]
  refine ⟨⟨hc _ (by simp [marks]), h.1⟩, not_mem_braced hc (not_mem_flatMap ?_)⟩
  intro b hb
  exact Block.not_mem_write hc (h.2 b hb)

theorem FontFace.absent_parts {f : FontFace} (hc : Absent c partMarks)
    (h : Absent c f.texts) : Absent c f.parts := by
  have hcolon : c ≠ ':' := fun heq => hc [':'] (by simp [partMarks]) (by rw [heq]; exact .head _)
  simp only [texts, absent_cons, absent_flatMap] at h
  obtain ⟨hfamily, hsource, hdescriptors⟩ := h
  simp only [parts, absent_cons, List.mem_append, not_or]
  refine ⟨⟨hc _ (by simp [partMarks]), hfamily⟩,
    ⟨⟨hc _ (by simp [partMarks]), hsource⟩, hc _ (by simp [partMarks])⟩, ?_⟩
  intro part hpart
  obtain ⟨d, hd, rfl⟩ := List.mem_map.mp hpart
  exact Declaration.not_mem_pair (hdescriptors d hd) hcolon

theorem not_mem_intercalate {sep : Char} {parts : List Text} (hsep : c ≠ sep)
    (h : Absent c parts) : c ∉ [sep].intercalate parts := by
  cases parts with
  | nil => simp
  | cons first rest =>
    intro hmem
    have hended := List.mem_append_left [sep] hmem
    rw [intercalate_append_sep] at hended
    obtain ⟨part, hpart, hin⟩ := List.mem_flatMap.mp hended
    rcases List.mem_append.mp hin with hinside | hlast
    · exact h part hpart hinside
    · exact hsep (List.mem_singleton.mp hlast)

theorem FontFace.not_mem_write {f : FontFace} (hc : Absent c marks) (h : Absent c f.texts) :
    c ∉ f.write := by
  obtain ⟨-, -, -, hsemicolon⟩ := ne_of_absent_marks hc
  change c ∉ "@font-face".toList ++ braced ([';'].intercalate f.parts)
  rw [List.mem_append, not_or]
  exact ⟨hc _ (by simp [marks]),
    not_mem_braced hc (not_mem_intercalate hsemicolon (absent_parts (absent_append.mp hc).2 h))⟩

/-- A stylesheet shows its texts and the marks of the format, and nothing else. -/
theorem not_mem_write {css : Css} (hc : Absent c marks) (h : Absent c css.texts) :
    c ∉ css.write := by
  simp only [texts, absent_append, absent_flatMap] at h
  obtain ⟨hrules, hkeyframes, hmotions, hfaces⟩ := h
  simp only [write, List.mem_append, not_or]
  refine ⟨⟨⟨not_mem_flatMap ?_, not_mem_flatMap ?_⟩, ?_⟩, not_mem_flatMap ?_⟩
  · intro b hb
    exact Block.not_mem_write hc (hrules b hb)
  · intro k hk
    exact Keyframes.not_mem_write hc (hkeyframes k hk)
  · unfold writeReducedMotion
    split
    · exact List.not_mem_nil
    · rw [List.mem_append, not_or]
      refine ⟨hc _ (by simp [marks]), not_mem_braced hc (not_mem_flatMap ?_)⟩
      intro k hk
      exact Keyframes.not_mem_write hc (hmotions k hk)
  · intro f hf
    exact FontFace.not_mem_write hc (hfaces f hf)

end Css

/-! ### What a sheet shows -/

section

variable {c : Char}

theorem Text.not_mem_kebabCase {t : Text} (h : c ∉ t) (hdash : c ≠ '-')
    (hlower : c.isLower = false) : c ∉ kebabCase t := by
  intro hmem
  rcases mem_kebabCase hmem with hin | hin | hin
  · exact h hin
  · exact hdash hin
  · rw [hlower] at hin
    cases hin

theorem Table.absent_declarations {t : Table Text} (h : Absent c t.words) (hdash : c ≠ '-')
    (hlower : c.isLower = false) :
    Absent c ((t.entries.map declarationOf).flatMap Css.Declaration.texts) := by
  rw [Table.absent_words] at h
  simp only [absent_flatMap, List.forall_mem_map]
  intro entry hentry
  obtain ⟨hname, hvalue⟩ := h entry hentry
  simpa [Css.Declaration.texts, declarationOf] using
    ⟨Text.not_mem_kebabCase hname hdash hlower, hvalue⟩

theorem Style.absent_block {selector : Text} {style : Style} (hselector : c ∉ selector)
    (h : Absent c style.texts) (hdash : c ≠ '-') (hlower : c.isLower = false) :
    Absent c (style.block selector).texts := by
  have hstyle := Table.absent_texts.mp h
  simp only [Css.Block.texts, Style.block, absent_cons, absent_flatMap, List.forall_mem_map]
  refine ⟨hselector, ?_⟩
  intro entry hentry
  obtain ⟨hproperty, hvalues⟩ := hstyle entry hentry
  have hvalue : c ∉ (dominant? entry.2.toList).getD [] := by
    cases hshown : dominant? entry.2.toList with
    | none => exact List.not_mem_nil
    | some value => exact hvalues value (mem_of_dominant? hshown)
  simpa [Css.Declaration.texts, declarationOf] using
    ⟨Text.not_mem_kebabCase hproperty hdash hlower, hvalue⟩

theorem Frames.absent_keyframes {name : Text} {frames : Frames} (hname : c ∉ name)
    (h : Absent c frames.texts) (hdash : c ≠ '-') (hlower : c.isLower = false) :
    Absent c (frames.keyframes name).texts := by
  have hframes := Table.absent_texts.mp h
  simp only [Css.Keyframes.texts, Frames.keyframes, Css.Block.texts, absent_cons, absent_flatMap,
    List.forall_mem_map]
  refine ⟨hname, ?_⟩
  intro frame hframe
  obtain ⟨hlabel, hdeclarations⟩ := hframes frame hframe
  have hshown := Table.absent_declarations hdeclarations hdash hlower
  simp only [absent_flatMap, List.forall_mem_map] at hshown
  exact ⟨hlabel, hshown⟩

theorem Font.absent_face {family : Text} {font : Font} {face : Css.FontFace}
    (hfamily : c ∉ family) (h : Absent c font.texts) (hdash : c ≠ '-')
    (hlower : c.isLower = false) (hface : font.face? family = some face) :
    Absent c face.texts := by
  rw [Font.texts, absent_append] at h
  unfold Font.face? at hface
  split at hface
  · cases hface
  · next source hsource =>
    split at hface
    · cases hface
    · cases hface
      have hin : c ∉ source := h.1 source (by simp [hsource])
      simp only [Css.FontFace.texts, absent_cons]
      exact ⟨hfamily, hin, Table.absent_declarations h.2 hdash hlower⟩

/-- What is written is what the sheet holds, with its properties respelled. -/
theorem Sheet.absent_css {sheet : Sheet} (h : Absent c sheet.texts) (hdash : c ≠ '-')
    (hlower : c.isLower = false) : Absent c sheet.css.texts := by
  rw [Sheet.absent_texts] at h
  simp only [Table.absent_texts] at h
  obtain ⟨hstyles, hanimations, hmotions, hfonts⟩ := h
  simp only [Css.texts, Sheet.css, absent_append, absent_flatMap, List.forall_mem_map]
  refine ⟨?_, ?_, ?_, ?_⟩
  · intro style hstyle
    obtain ⟨hselector, htexts⟩ := hstyles style (List.mem_of_mem_filter hstyle)
    exact Style.absent_block hselector htexts hdash hlower
  · intro frames hframes
    obtain ⟨hname, htexts⟩ := hanimations frames hframes
    exact Frames.absent_keyframes hname htexts hdash hlower
  · intro frames hframes
    obtain ⟨hname, htexts⟩ := hmotions frames hframes
    exact Frames.absent_keyframes hname htexts hdash hlower
  · intro face hface
    obtain ⟨font, hfont, hshown⟩ := List.mem_filterMap.mp hface
    obtain ⟨hfamily, htexts⟩ := hfonts font hfont
    exact Font.absent_face hfamily htexts hdash hlower hshown

end

end Dyehouse
