import Dyehouse.Compilation
import Dyehouse.Proofs.Run
import Dyehouse.Proofs.Spelling
import Dyehouse.Proofs.Table

/-!
# The keys of a sheet

Selectors, labels of frames and font families are items of comma lists, and properties are
items in the spelling with capitals.  They get into a sheet by several ways: declarations go to
four different tables, a class is copied onto a comma list of selectors or onto another class,
and copying brings along the properties of the class.  `Sheet.Keyed` says that all keys are in
order, and every edit that a statement asks for keeps it.

Since the keys of a table are distinct and properties in order are told apart by the spelling
with dashes, the properties of a rule, of a frame and of a font are distinct as they are
written.  The family that a font starts with is not one of its properties, and may be repeated
by one.
-/

namespace Dyehouse

/-! ### Items of comma lists -/

namespace Text

/-- A text that can be an item of a comma list: not empty, with no blank at either end and no
    comma in it. -/
structure IsItem (t : Text) : Prop where
  ne_nil : t ≠ []
  head : ∀ c ∈ t.head?, isBlank c = false
  last : ∀ c ∈ t.getLast?, isBlank c = false
  comma : ',' ∉ t

theorem stripEnd_isPrefix (t : Text) : stripEnd t <+: t :=
  List.rdropWhile_prefix isBlank t

theorem mem_of_mem_strip {c : Char} {t : Text} (h : c ∈ strip t) : c ∈ t := by
  have hstart : c ∈ stripStart t := (stripEnd_isPrefix _).subset h
  exact (List.dropWhile_suffix isBlank).subset hstart

theorem head?_strip {t : Text} {c : Char} (h : c ∈ (strip t).head?) : isBlank c = false := by
  obtain ⟨rest, hrest⟩ := List.head?_eq_some_iff.mp h
  -- what is left starts as the text without its first blanks
  obtain ⟨more, hmore⟩ := stripEnd_isPrefix (stripStart t)
  have hstart : (t.dropWhile isBlank).head? = some c := by
    change (stripStart t).head? = some c
    rw [← hmore]
    change (strip t ++ more).head? = some c
    rw [hrest]
    rfl
  have hnot := List.head?_dropWhile_not isBlank t
  rw [hstart] at hnot
  exact hnot

theorem getLast?_strip {t : Text} {c : Char} (h : c ∈ (strip t).getLast?) :
    isBlank c = false := by
  have hlast : ((stripStart t).reverse.dropWhile isBlank).head? = some c := by
    rw [← List.getLast?_reverse]
    exact h
  have hnot := List.head?_dropWhile_not isBlank (stripStart t).reverse
  rw [hlast] at hnot
  exact hnot

theorem isItem_of_mem_tidy {texts : List Text} (h : ∀ t ∈ texts, ',' ∉ t) {t : Text}
    (ht : t ∈ tidy texts) : t.IsItem := by
  obtain ⟨hmem, hne⟩ := List.mem_filter.mp ht
  obtain ⟨text, htext, rfl⟩ := List.mem_map.mp hmem
  constructor
  · simpa using hne
  · intro c hc
    exact head?_strip hc
  · intro c hc
    exact getLast?_strip hc
  · intro hcomma
    exact h text htext (mem_of_mem_strip hcomma)

theorem isItem_of_mem_items {list t : Text} (h : t ∈ items list) : t.IsItem :=
  isItem_of_mem_tidy (fun _ => not_mem_of_mem_splitOn) h

theorem IsItem.strip_eq {t : Text} (h : t.IsItem) : strip t = t := by
  obtain ⟨c, rest, rfl⟩ := List.exists_cons_of_ne_nil h.ne_nil
  have hstart : stripStart (c :: rest) = c :: rest := by
    rw [stripStart, List.dropWhile_cons_of_neg]
    simp [h.head c rfl]
  rw [strip, hstart]
  apply List.rdropWhile_eq_self_iff.mpr
  intro hne
  simp [h.last _ (List.getLast?_eq_some_getLast hne)]

/-! ### Property names -/

/-- A property as a sheet keeps it: an item in which no dash stands before a small letter. -/
structure IsProperty (t : Text) : Prop extends IsItem t where
  camel : t.IsCamel

/-- A property that describes a font.  Where the font is loaded from is kept apart. -/
structure IsDescriptor (t : Text) : Prop extends IsProperty t where
  ne_src : t ≠ "src".toList

theorem isProperty_camelCase {t : Text} (h : t.IsItem) : (camelCase t).IsProperty where
  ne_nil := closeUp_ne_nil h.ne_nil
  head := by
    intro c hc
    rcases head?_camelCase t with hsame | ⟨d, hd, halnum, -⟩
    · exact h.head c (hsame ▸ hc)
    · rw [hd] at hc
      cases hc
      exact isBlank_of_isAlphanum halnum
  last := by
    intro c hc
    rcases getLast?_camelCase t with hsame | ⟨d, hd, halnum⟩
    · exact h.last c (hsame ▸ hc)
    · rw [hd] at hc
      cases hc
      exact isBlank_of_isAlphanum halnum
  comma := by
    intro hcomma
    rcases mem_camelCase hcomma with hmem | halnum
    · exact h.comma hmem
    · cases halnum
  camel := isCamel_camelCase t

end Text

theorem comma_not_mem_of_classQuery {token name : Text}
    (h : ClassQuery.ofToken? token = some name) : ',' ∉ name := by
  unfold ClassQuery.ofToken? at h
  split at h
  · next c rest =>
    split at h
    · next hname =>
      cases h
      rw [Bool.and_eq_true, List.all_eq_true] at hname
      intro hcomma
      rcases List.mem_cons.mp hcomma with rfl | hrest
      · cases hname.1
      · cases hname.2 ',' hrest
    · cases h
  · cases h

/-- The targets of a class come to items, whether they are written as a comma list or as a
    class query. -/
theorem isItem_of_mem_targetSelectors {target selector : Text}
    (h : selector ∈ Text.tidy (targetSelectors target)) : selector.IsItem := by
  refine Text.isItem_of_mem_tidy ?_ h
  intro t ht
  unfold targetSelectors at ht
  cases hquery : ClassQuery.ofToken? target with
  | none =>
    rw [hquery] at ht
    exact Text.not_mem_of_mem_splitOn ht
  | some name =>
    rw [hquery] at ht
    obtain rfl := List.mem_singleton.mp ht
    intro hcomma
    rcases List.mem_cons.mp hcomma with hdot | hname
    · cases hdot
    · exact comma_not_mem_of_classQuery hquery hname

/-! ### Tables with keys in order -/

namespace Table

variable {α : Type}

/-- The properties of a table in order are told apart in the spelling with dashes. -/
theorem Keyed.nodup_kebabCase {t : Table α} (h : t.Keyed Text.IsProperty) :
    (t.names.map Text.kebabCase).Nodup := by
  refine h.nodup.map_on ?_
  intro s hs u hu
  exact Text.kebabCase_inj (h.names s hs).camel (h.names u hu).camel

theorem Keyed.nodup_src_kebabCase {t : Table α} (h : t.Keyed Text.IsDescriptor) :
    ("src".toList :: t.names.map Text.kebabCase).Nodup := by
  have hproperties : t.Keyed Text.IsProperty :=
    ⟨h.nodup, fun name hname => (h.names name hname).toIsProperty⟩
  refine List.nodup_cons.mpr ⟨?_, hproperties.nodup_kebabCase⟩
  intro hsrc
  obtain ⟨name, hname, hwritten⟩ := List.mem_map.mp hsrc
  have hin := h.names name hname
  exact hin.ne_src (Text.kebabCase_inj hin.camel (Text.isCamel_camelCase "src".toList) hwritten)

end Table

/-! ### Sheets with keys in order -/

structure Frames.Keyed (frames : Frames) : Prop where
  labels : Table.Keyed Text.IsItem frames
  properties : ∀ frame ∈ frames.entries, frame.2.Keyed Text.IsProperty

theorem Frames.keyed_empty : Frames.Keyed ∅ where
  labels := Table.keyed_empty
  properties := by simp

theorem Frames.Keyed.set {frames : Frames} (h : frames.Keyed) {label property : Text}
    (hlabel : label.IsItem) (hproperty : property.IsProperty) (value : Text) :
    (frames.set label property value).Keyed where
  labels := by
    rw [Frames.set, hlabel.strip_eq]
    exact h.labels.alter hlabel _
  properties := by
    refine Table.forall_mem_alter (P := Table.Keyed Text.IsProperty) h.properties ?_ ?_
    · exact Table.keyed_empty.alter hproperty _
    · intro frame hframe
      exact hframe.alter hproperty _

/-- An edit whose keys are in order. -/
def Edit.Keyed : Edit → Prop
  | style selector property _ => selector.IsItem ∧ property.IsProperty
  | keyframe _ label property _ | motion _ label property _ =>
    label.IsItem ∧ property.IsProperty
  | fontSource family _ => family.IsItem
  | fontDescriptor family property _ => family.IsItem ∧ property.IsDescriptor
  | copyClass selectors _ => ∀ selector ∈ Text.tidy selectors, selector.IsItem

namespace Sheet

/-- All keys of the sheet are in order. -/
structure Keyed (sheet : Sheet) : Prop where
  selectors : sheet.styles.Keyed Text.IsItem
  properties : ∀ style ∈ sheet.styles.entries, Table.Keyed Text.IsProperty style.2
  animations : ∀ frames ∈ sheet.animations.entries, Frames.Keyed frames.2
  motions : ∀ frames ∈ sheet.motions.entries, Frames.Keyed frames.2
  families : sheet.fonts.Keyed Text.IsItem
  descriptors : ∀ font ∈ sheet.fonts.entries, font.2.descriptors.Keyed Text.IsDescriptor

theorem keyed_start : Keyed {} where
  selectors := Table.keyed_empty
  properties := by simp
  animations := by simp
  motions := by simp
  families := Table.keyed_empty
  descriptors := by simp

theorem keyed_alter_set {table : Table Frames}
    (h : ∀ frames ∈ table.entries, Frames.Keyed frames.2) {label property : Text}
    (hlabel : label.IsItem) (hproperty : property.IsProperty) (name value : Text) :
    ∀ frames ∈ (table.alter name fun frames =>
      Frames.set (frames.getD ∅) label property value).entries, Frames.Keyed frames.2 := by
  refine Table.forall_mem_alter (P := Frames.Keyed) h ?_ ?_
  · exact Frames.keyed_empty.set hlabel hproperty value
  · intro frames hframes
    exact hframes.set hlabel hproperty value

namespace Keyed

variable {sheet : Sheet}

theorem addValue (h : sheet.Keyed) {selector property : Text} (hselector : selector.IsItem)
    (hproperty : property.IsProperty) (value : Text) :
    (sheet.addValue selector property value).Keyed :=
  { h with
    selectors := h.selectors.alter hselector _
    properties := by
      refine Table.forall_mem_alter (P := Table.Keyed Text.IsProperty) h.properties ?_ ?_
      · exact Table.keyed_empty.alter hproperty _
      · intro style hstyle
        exact hstyle.alter hproperty _ }

theorem addCandidates (h : sheet.Keyed) {candidates : List Candidate}
    (hin : ∀ c ∈ candidates, c.selector.IsItem ∧ c.property.IsProperty) :
    (sheet.addCandidates candidates).Keyed := by
  induction candidates generalizing sheet with
  | nil => exact h
  | cons candidate rest ih =>
    rw [List.forall_mem_cons] at hin
    obtain ⟨hfirst, hrest⟩ := hin
    exact ih (h.addValue hfirst.1 hfirst.2 candidate.value) hrest

theorem properties_of_findClass? (h : sheet.Keyed) {name : Text} {style : Style}
    (hstyle : sheet.findClass? name = some style) : Table.Keyed Text.IsProperty style := by
  rcases Option.or_eq_some_iff.mp hstyle with hdot | ⟨-, hbare⟩
  · exact h.properties _ (Table.mem_of_get?_eq_some hdot)
  · exact h.properties _ (Table.mem_of_get?_eq_some hbare)

/-- Copying a class brings along properties that are in the sheet already. -/
theorem copyClass (h : sheet.Keyed) {selectors : List Text}
    (hselectors : ∀ selector ∈ Text.tidy selectors, selector.IsItem) (name : Text) :
    ((sheet.applyClass? selectors name).getD sheet).Keyed := by
  unfold applyClass?
  cases hclass : sheet.findClass? name with
  | none => exact h
  | some style =>
    refine h.addCandidates ?_
    intro candidate hcandidate
    simp only [Candidate.ofStyle, Candidate.spread, List.mem_flatMap, List.mem_map] at hcandidate
    obtain ⟨entry, hentry, value, -, selector, hselector, rfl⟩ := hcandidate
    have hproperties := h.properties_of_findClass? hclass
    exact ⟨hselectors selector hselector, hproperties.names _ (List.mem_map_of_mem hentry)⟩

theorem setFontSource (h : sheet.Keyed) {family : Text} (hfamily : family.IsItem)
    (source : Text) : (sheet.setFontSource family source).Keyed :=
  { h with
    families := h.families.alter hfamily _
    descriptors := by
      refine Table.forall_mem_alter
        (P := fun font : Font => font.descriptors.Keyed Text.IsDescriptor) h.descriptors ?_ ?_
      · exact Table.keyed_empty
      · intro font hfont
        exact hfont }

theorem setFontDescriptor (h : sheet.Keyed) {family property : Text} (hfamily : family.IsItem)
    (hproperty : property.IsDescriptor) (value : Text) :
    (sheet.setFontDescriptor family property value).Keyed :=
  { h with
    families := h.families.alter hfamily _
    descriptors := by
      refine Table.forall_mem_alter
        (P := fun font : Font => font.descriptors.Keyed Text.IsDescriptor) h.descriptors ?_ ?_
      · exact Table.keyed_empty.alter hproperty fun _ => value
      · intro font hfont
        exact hfont.alter hproperty fun _ => value }

theorem apply (h : sheet.Keyed) {edit : Edit} (hedit : edit.Keyed) :
    (sheet.apply edit).Keyed := by
  cases edit with
  | style selector property value => exact h.addValue hedit.1 hedit.2 value
  | keyframe animation label property value =>
    exact { h with animations := keyed_alter_set h.animations hedit.1 hedit.2 animation value }
  | motion name label property value =>
    exact { h with motions := keyed_alter_set h.motions hedit.1 hedit.2 name value }
  | fontSource family source => exact h.setFontSource hedit source
  | fontDescriptor family property value => exact h.setFontDescriptor hedit.1 hedit.2 value
  | copyClass selectors name => exact h.copyClass hedit name

theorem applyAll (h : sheet.Keyed) {edits : List Edit} (hedits : ∀ edit ∈ edits, edit.Keyed) :
    (sheet.applyAll edits).Keyed := by
  induction edits generalizing sheet with
  | nil => exact h
  | cons edit rest ih =>
    rw [List.forall_mem_cons] at hedits
    exact ih (h.apply hedits.1) hedits.2

end Keyed

end Sheet

/-! ### The keys that statements bring -/

theorem Edit.keyed_declare {selector property : Text} (hselector : selector.IsItem)
    (hproperty : property.IsProperty) (active : Collection) (value : Text) :
    (declare active selector property value).Keyed := by
  unfold declare
  split
  · exact ⟨hselector, hproperty⟩
  · exact ⟨hselector, hproperty⟩
  · split
    · exact hselector
    · next hsrc => exact ⟨hselector, hproperty, hsrc⟩
  · exact ⟨hselector, hproperty⟩
  · exact ⟨hselector, hproperty⟩

theorem Context.keyed_of_plan {c : Context} {content : List Text} {plan : Plan}
    (h : c.plan content = .ok plan) : ∀ edit ∈ plan.edits, edit.Keyed := by
  intro edit hedit
  obtain ⟨query, words, -, ⟨list, -, pairs, -, selector, hselector, declaration, hdeclaration,
    rfl⟩ | ⟨target, -, name, rfl⟩⟩ := mem_edits_of_plan h hedit
  · simp only [declarations, List.mem_flatMap, List.mem_map] at hdeclaration
    obtain ⟨pair, -, property, hproperty, rfl⟩ := hdeclaration
    exact Edit.keyed_declare (Text.isItem_of_mem_items hselector)
      (Text.isProperty_camelCase (Text.isItem_of_mem_items hproperty)) _ _
  · intro selector hselector
    exact isItem_of_mem_targetSelectors hselector

theorem State.keyed_interpret {file : Option Text} {s : State} {statement : Statement}
    (h : s.sheet.Keyed) : (s.interpret file statement).state.sheet.Keyed := by
  rw [State.interpret_eq]
  cases hplan : s.context.plan statement.content with
  | error fault => exact h
  | ok plan => exact h.applyAll (Context.keyed_of_plan hplan)

theorem Run.keyed_statements (file : Option Text) (modes : Modes) (statements : List Statement) :
    (Run.statements file { context := { modes } } statements).state.sheet.Keyed :=
  Run.state_statements_induction (P := fun s => s.sheet.Keyed) file
    (fun _ _ => State.keyed_interpret) Sheet.keyed_start statements

/-- **The keys of a sheet are always in order.**  After any statements every selector, every
    label of a frame and every font family is an item: not empty, without a blank at either end
    and without a comma.  Every property of a style, of a frame and of a font is an item in
    which no dash stands before a small letter. -/
theorem sheet_keys_in_order (file : Option Text) (modes : Modes) (statements : List Statement) :
    let sheet := (Run.statements file { context := { modes } } statements).state.sheet
    let animated := sheet.animations.entries ++ sheet.motions.entries
    (∀ selector ∈ sheet.styles.names, selector.IsItem) ∧
    (∀ frames ∈ animated, ∀ label ∈ frames.2.names, label.IsItem) ∧
    (∀ family ∈ sheet.fonts.names, family.IsItem) ∧
    (∀ style ∈ sheet.styles.entries, ∀ property ∈ style.2.names, property.IsProperty) ∧
    (∀ frames ∈ animated, ∀ frame ∈ frames.2.entries, ∀ property ∈ frame.2.names,
      property.IsProperty) ∧
    ∀ font ∈ sheet.fonts.entries, ∀ property ∈ font.2.descriptors.names,
      property.IsProperty := by
  intro sheet animated
  have h : sheet.Keyed := Run.keyed_statements file modes statements
  have hanimated : ∀ frames ∈ animated, Frames.Keyed frames.2 := by
    intro frames hframes
    rcases List.mem_append.mp hframes with hanimation | hmotion
    · exact h.animations frames hanimation
    · exact h.motions frames hmotion
  refine ⟨h.selectors.names, ?_, h.families.names, ?_, ?_, ?_⟩
  · intro frames hframes
    exact (hanimated frames hframes).labels.names
  · intro style hstyle
    exact (h.properties style hstyle).names
  · intro frames hframes frame hframe
    exact ((hanimated frames hframes).properties frame hframe).names
  · intro font hfont property hproperty
    exact ((h.descriptors font hfont).names property hproperty).toIsProperty

/-- A style, a class copied onto a comma list with blanks in it, and a font, with properties
    in which dashes stand next to each other. -/
theorem sheet_keys_in_order_copied :
    let statements : List Statement :=
      [{ content := ["$".toList, " .a ,".toList, "--ab-c , top".toList, "1".toList] },
       { content := ["$a".toList, " .b\t, ,.c".toList, "$d".toList] },
       { content := ["#".toList, "f".toList] },
       { content := ["!type".toList, "font".toList] },
       { content := ["$".toList, "Mono, Serif".toList, "font-weight".toList, "1".toList] }]
    let sheet := (Run.statements none { context := { modes := {} } } statements).state.sheet
    sheet.styles.names = [".a".toList, ".b".toList, ".c".toList, ".d".toList] ∧
    (∀ style ∈ sheet.styles.entries, style.2.names = ["-AbC".toList, "top".toList]) ∧
    sheet.fonts.names = ["Mono".toList, "Serif".toList] ∧
    Text.IsItem ".b".toList ∧ Text.IsProperty "-AbC".toList ∧ Text.IsItem "Serif".toList := by
  intro statements sheet
  have hselectors :
      sheet.styles.names = [".a".toList, ".b".toList, ".c".toList, ".d".toList] := by
    decide +kernel
  have hproperties :
      ∀ style ∈ sheet.styles.entries, style.2.names = ["-AbC".toList, "top".toList] := by
    decide +kernel
  have hfamilies : sheet.fonts.names = ["Mono".toList, "Serif".toList] := by decide +kernel
  obtain ⟨hitems, -, hfonts, hnames, -, -⟩ := sheet_keys_in_order none {} statements
  refine ⟨hselectors, hproperties, hfamilies, ?_, ?_, ?_⟩
  · refine hitems _ ?_
    rw [hselectors]
    decide
  · have hne : sheet.styles.entries ≠ [] := by decide +kernel
    obtain ⟨style, rest, hentries⟩ := List.exists_cons_of_ne_nil hne
    have hstyle : style ∈ sheet.styles.entries := by
      rw [hentries]
      exact List.mem_cons_self
    refine hnames style hstyle _ ?_
    rw [hproperties style hstyle]
    decide
  · refine hfonts _ ?_
    rw [hfamilies]
    decide

/-! ### Blocks of a stylesheet -/

/-- The properties that a block declares, as they are written. -/
def Css.properties (declarations : List Css.Declaration) : List Text :=
  declarations.map fun declaration => declaration.property

theorem Css.properties_map_declarationOf (t : Table Text) :
    Css.properties (t.entries.map declarationOf) = t.names.map Text.kebabCase := by
  simp [Css.properties, Table.names, declarationOf]

theorem Style.properties_block (selector : Text) (style : Style) :
    Css.properties (style.block selector).declarations = style.names.map Text.kebabCase := by
  simp [Css.properties, Table.names, Style.block, declarationOf]

theorem Frames.Keyed.nodup_properties {frames : Frames} (h : frames.Keyed) (name : Text) :
    ∀ block ∈ (frames.keyframes name).frames, (Css.properties block.declarations).Nodup := by
  intro block hblock
  obtain ⟨frame, hframe, rfl⟩ := List.mem_map.mp hblock
  rw [Css.properties_map_declarationOf]
  exact (h.properties frame hframe).nodup_kebabCase

theorem Font.nodup_properties {family : Text} {font : Font} {face : Css.FontFace}
    (hface : font.face? family = some face) (h : font.descriptors.Keyed Text.IsDescriptor) :
    ("src".toList :: Css.properties face.descriptors).Nodup := by
  unfold Font.face? at hface
  split at hface
  · cases hface
  · split at hface
    · cases hface
    · cases hface
      rw [Css.properties_map_declarationOf]
      exact h.nodup_src_kebabCase

/-- **Properties are declared once.**  After any statements the properties of a style are
    distinct as they are written, and so are those of a frame and those that describe a font,
    none of which is written like the one that says where the font is loaded from.  The same
    holds of the stylesheet's rules, frames and font descriptors. -/
theorem properties_declared_once (file : Option Text) (modes : Modes)
    (statements : List Statement) :
    let sheet := (Run.statements file { context := { modes } } statements).state.sheet
    (∀ style ∈ sheet.styles.entries, (style.2.names.map Text.kebabCase).Nodup) ∧
    (∀ frames ∈ sheet.animations.entries ++ sheet.motions.entries, ∀ frame ∈ frames.2.entries,
      (frame.2.names.map Text.kebabCase).Nodup) ∧
    (∀ font ∈ sheet.fonts.entries,
      ("src".toList :: font.2.descriptors.names.map Text.kebabCase).Nodup) ∧
    (∀ block ∈ sheet.css.rules, (Css.properties block.declarations).Nodup) ∧
    (∀ keyframes ∈ sheet.css.keyframes ++ sheet.css.reducedMotion, ∀ block ∈ keyframes.frames,
      (Css.properties block.declarations).Nodup) ∧
    ∀ face ∈ sheet.css.fontFaces, ("src".toList :: Css.properties face.descriptors).Nodup := by
  intro sheet
  have h : sheet.Keyed := Run.keyed_statements file modes statements
  refine ⟨?_, ?_, ?_, ?_, ?_, ?_⟩
  · intro style hstyle
    exact (h.properties style hstyle).nodup_kebabCase
  · intro frames hframes frame hframe
    rcases List.mem_append.mp hframes with hanimation | hmotion
    · exact ((h.animations frames hanimation).properties frame hframe).nodup_kebabCase
    · exact ((h.motions frames hmotion).properties frame hframe).nodup_kebabCase
  · intro font hfont
    exact (h.descriptors font hfont).nodup_src_kebabCase
  · intro block hblock
    obtain ⟨style, hstyle, rfl⟩ := List.mem_map.mp hblock
    rw [Style.properties_block]
    exact (h.properties style (List.mem_of_mem_filter hstyle)).nodup_kebabCase
  · intro keyframes hkeyframes
    rcases List.mem_append.mp hkeyframes with hanimation | hmotion
    · obtain ⟨frames, hframes, rfl⟩ := List.mem_map.mp hanimation
      exact (h.animations frames hframes).nodup_properties frames.1
    · obtain ⟨frames, hframes, rfl⟩ := List.mem_map.mp hmotion
      exact (h.motions frames hframes).nodup_properties frames.1
  · intro face hface
    obtain ⟨font, hfont, hshown⟩ := List.mem_filterMap.mp hface
    exact Font.nodup_properties hshown (h.descriptors font hfont)

/-- Two spellings of one property on one selector, beside a property that differs from it by a
    second dash, and a font. -/
theorem properties_declared_once_spellings :
    let statements : List Statement :=
      [{ content := ["$".toList, ".a".toList, "-x,X,--x".toList, "1".toList] },
       { content := ["#".toList, "f".toList] },
       { content := ["!type".toList, "font".toList] },
       { content := ["$".toList, "Mono".toList, "src,font-weight,-src".toList, "m".toList] }]
    let sheet := (Run.statements none { context := { modes := {} } } statements).state.sheet
    sheet.css.rules.map (fun block => Css.properties block.declarations) =
      [["-x".toList, "--x".toList]] ∧
    sheet.css.fontFaces.map (fun face => Css.properties face.descriptors) =
      [["font-weight".toList, "-src".toList]] ∧
    ["-x".toList, "--x".toList].Nodup ∧
    ["src".toList, "font-weight".toList, "-src".toList].Nodup := by
  intro statements sheet
  have hrules : sheet.css.rules.map (fun block => Css.properties block.declarations) =
      [["-x".toList, "--x".toList]] := by decide +kernel
  have hfaces : sheet.css.fontFaces.map (fun face => Css.properties face.descriptors) =
      [["font-weight".toList, "-src".toList]] := by decide +kernel
  obtain ⟨-, -, -, hblocks, -, hfonts⟩ := properties_declared_once none {} statements
  refine ⟨hrules, hfaces, ?_, ?_⟩
  · have hmem := List.mem_map.mp (hrules ▸ List.mem_cons_self :
      ["-x".toList, "--x".toList] ∈ sheet.css.rules.map fun block =>
        Css.properties block.declarations)
    obtain ⟨block, hblock, heq⟩ := hmem
    rw [← heq]
    exact hblocks block hblock
  · have hmem := List.mem_map.mp (hfaces ▸ List.mem_cons_self :
      ["font-weight".toList, "-src".toList] ∈ sheet.css.fontFaces.map fun face =>
        Css.properties face.descriptors)
    obtain ⟨face, hface, heq⟩ := hmem
    rw [← heq]
    exact hfonts face hface

-- the family stands in front of the descriptors, and one of these may repeat it
example :
    let statements : List Statement :=
      [{ content := ["#".toList, "f".toList] },
       { content := ["!type".toList, "font".toList] },
       { content := ["$".toList, "Mono".toList, "src,font-family".toList, "m".toList] }]
    let sheet := (Run.statements none {} statements).state.sheet
    sheet.css.write =
      "@font-face\x7bfont-family:Mono;src:url(m);font-family:m\x7d".toList := by
  decide +kernel

end Dyehouse
