import Dyehouse.Proofs.Keeping
import Dyehouse.Proofs.Sheet

/-!
# Deciding early which value shows

A property of a style keeps every value that it was ever given, and which of them shows is
decided when the sheet is written.  It might as well be decided at once.  A `SettledSheet`
keeps one value for each property; a new value takes the place of the old one unless the old
one insists on being shown and the new one does not, and copying a class copies the one value
that each of its properties has.  No run of statements can tell the difference.

What shows of a list of values is a fold of `settle` over it, and `settle` is associative and
idempotent.  That is why it can be applied to parts of the list in advance, as when the values
of a class are settled before they are copied, and why it does no harm if copying gives a
selector that is named twice every value twice.
-/

namespace Dyehouse

/-! ### What is left when a value is written over another -/

/-- The new value, unless the old one insists on being shown and the new one does not. -/
def settle (old new : Text) : Text :=
  if isImportant old && !isImportant new then old else new

@[simp] theorem settle_nil (value : Text) : settle [] value = value := by
  have h : isImportant [] = false := by decide
  simp [settle, h]

@[simp] theorem settle_self (value : Text) : settle value value = value := by
  simp [settle]

theorem isImportant_settle (old new : Text) :
    isImportant (settle old new) = (isImportant old || isImportant new) := by
  unfold settle
  cases hold : isImportant old <;> cases hnew : isImportant new <;> simp [hold, hnew]

theorem settle_assoc (a b c : Text) : settle (settle a b) c = settle a (settle b c) := by
  by_cases hb : isImportant b = true
  · -- `b` insists, so `a` is out of the question on both sides
    have habc : settle a b = b := by simp [settle, hb]
    have ha : settle a (settle b c) = settle b c := by
      rw [settle, isImportant_settle, hb]
      simp
    rw [habc, ha]
  · by_cases hc : isImportant c = true
    · simp [settle, hc]
    · -- neither `b` nor `c` insists, and the last of them is up against `a`
      simp only [Bool.not_eq_true] at hb hc
      have hbc : settle b c = c := by simp [settle, hb]
      rw [hbc]
      cases ha : isImportant a <;> simp [settle, ha, hb, hc]

/-- Settling the first two values in advance does not change what shows. -/
theorem dominant?_settle (a b : Text) (rest : List Text) :
    dominant? (a :: b :: rest) = dominant? (settle a b :: rest) := by
  cases ha : isImportant a with
  | false =>
    have hsettle : settle a b = b := by simp [settle, ha]
    simp [dominant?, hsettle, ha]
  | true =>
    cases hb : isImportant b with
    | true =>
      have hsettle : settle a b = b := by simp [settle, hb]
      simp [dominant?, hsettle, ha, hb]
    | false =>
      have hsettle : settle a b = a := by simp [settle, ha, hb]
      have hsome : ((a :: rest.filter isImportant).getLast?).isSome := by simp
      obtain ⟨value, hvalue⟩ := Option.isSome_iff_exists.mp hsome
      simp [dominant?, hsettle, ha, hb, hvalue]

theorem dominant?_cons (first : Text) (rest : List Text) :
    dominant? (first :: rest) = some (rest.foldl settle first) := by
  induction rest generalizing first with
  | nil => cases h : isImportant first <;> simp [dominant?, h]
  | cons second others ih => rw [dominant?_settle, ih, List.foldl_cons]

/-- What shows of some values, if there are any: they are settled one after the other. -/
def shown (values : List Text) : Text :=
  values.foldl settle []

theorem shown_cons (first : Text) (rest : List Text) :
    shown (first :: rest) = rest.foldl settle first := by
  rw [shown, List.foldl_cons, settle_nil]

theorem getD_dominant? (values : List Text) : (dominant? values).getD [] = shown values := by
  cases values with
  | nil => rfl
  | cons first rest => rw [dominant?_cons, shown_cons, Option.getD_some]

theorem dominant_eq_shown {values : List Text} (h : values ≠ []) :
    dominant values = .ok (shown values) := by
  obtain ⟨first, rest, rfl⟩ := List.exists_cons_of_ne_nil h
  rw [dominant, dominant?_cons, shown_cons]

/-! ### Sheets that keep one value for each property -/

/-- A sheet of which every property of a style keeps one value only. -/
structure SettledSheet where
  styles : Table (Table Text) := ∅
  /-- Everything but the styles. -/
  others : Sheet := {}

namespace SettledSheet

/-- Write a value over the one that the property has, if there is a style and it has one. -/
def putValue (property value : Text) (style : Option (Table Text)) : Table Text :=
  (style.getD ∅).alter property fun old =>
    match old with
    | none => value
    | some old => settle old value

def write (s : SettledSheet) (selector property value : Text) : SettledSheet :=
  { s with styles := s.styles.alter selector (putValue property value) }

def writeAll (s : SettledSheet) (candidates : List Candidate) : SettledSheet :=
  candidates.foldl (fun s c => s.write c.selector c.property c.value) s

/-- The style of a class: that of the selector with a dot before the name, else that of the
    bare name. -/
def findClass? (s : SettledSheet) (name : Text) : Option (Table Text) :=
  (s.styles.get? ('.' :: name)).or (s.styles.get? name)

/-- Give the selectors the one value of every property of a style, in order. -/
def copyStyle (s : SettledSheet) (selectors : List Text) (style : Table Text) : SettledSheet :=
  s.writeAll (style.entries.flatMap fun entry =>
    Candidate.spread (Text.tidy selectors) entry.1 entry.2)

def apply (s : SettledSheet) : Edit → SettledSheet
  | .style selector property value => s.write selector property value
  | .copyClass selectors name =>
    match s.findClass? name with
    | none => s
    | some style => s.copyStyle selectors style
  | edit => { s with others := s.others.apply edit }

def lacks? (s : SettledSheet) : Edit → Option Text
  | .copyClass _ name => if (s.findClass? name).isSome then none else some name
  | _ => none

def keeping : Keeping SettledSheet where
  apply := apply
  lacks? := lacks?

/-- What the sheet shows: every property with the one value that it has. -/
def css (s : SettledSheet) : Css :=
  { s.others.css with
    rules := (s.styles.entries.filter fun entry => !entry.2.isEmpty).map fun entry =>
      { head := entry.1, declarations := entry.2.entries.map declarationOf } }

/-- The sheet as the text of a stylesheet. -/
def render (s : SettledSheet) (minify : Bool) : Text :=
  if minify then s.css.writeTight else s.css.write

/-! ### Rounds of writes -/

theorem putValue_putValue (property old new : Text) (style : Option (Table Text)) :
    putValue property new (some (putValue property old style)) =
      putValue property (settle old new) style := by
  unfold putValue
  rw [Option.getD_some, Table.alter_alter]
  congr 1
  funext value
  cases value with
  | none => rfl
  | some first => exact settle_assoc first old new

theorem writeAll_append (s : SettledSheet) (candidates more : List Candidate) :
    s.writeAll (candidates ++ more) = (s.writeAll candidates).writeAll more :=
  List.foldl_append

/-- One value for each of the selectors is one write under each of them. -/
theorem writeAll_spread (s : SettledSheet) (selectors : List Text) (property value : Text) :
    s.writeAll (Candidate.spread selectors property value) =
      { s with styles := s.styles.alterEach selectors (putValue property value) } := by
  induction selectors generalizing s with
  | nil => rfl
  | cons selector rest ih => exact ih (s.write selector property value)

theorem nodup_writeAll {s : SettledSheet} (h : s.styles.names.Nodup)
    (candidates : List Candidate) : (s.writeAll candidates).styles.names.Nodup := by
  induction candidates generalizing s with
  | nil => exact h
  | cons candidate rest ih => exact ih (Table.nodup_names_alter h _ _)

/-- A second value for the same selectors might as well have been settled with the first. -/
theorem writeAll_spread_spread {s : SettledSheet} (h : s.styles.names.Nodup)
    (selectors : List Text) (property old new : Text) :
    (s.writeAll (Candidate.spread selectors property old)).writeAll
        (Candidate.spread selectors property new) =
      s.writeAll (Candidate.spread selectors property (settle old new)) := by
  have hagain : ∀ (value : Text) (style : Option (Table Text)),
      putValue property value (some (putValue property value style)) =
        putValue property value style := by
    intro value style
    rw [putValue_putValue, settle_self]
  have hstyles := Table.alterEach_alterEach h (hagain old) (hagain new) (hagain (settle old new))
    (putValue_putValue property old new) selectors
  rw [writeAll_spread, writeAll_spread, writeAll_spread, hstyles]

/-- Rounds of values for the same selectors come to one round of the value that shows. -/
theorem writeAll_rounds {s : SettledSheet} (h : s.styles.names.Nodup) (selectors : List Text)
    (property first : Text) (rest : List Text) :
    s.writeAll ((first :: rest).flatMap fun value => Candidate.spread selectors property value) =
      s.writeAll (Candidate.spread selectors property (shown (first :: rest))) := by
  induction rest generalizing first with
  | nil => simp [shown_cons]
  | cons second others ih =>
    have hshown : shown (first :: second :: others) = shown (settle first second :: others) := by
      rw [shown_cons, shown_cons, List.foldl_cons]
    rw [hshown, ← ih (settle first second)]
    simp only [List.flatMap_cons, writeAll_append]
    rw [writeAll_spread_spread h]

theorem writeAll_entries {s : SettledSheet} (h : s.styles.names.Nodup) (selectors : List Text)
    {entries : List (Text × Array Text)} (hvalues : ∀ entry ∈ entries, entry.2 ≠ #[]) :
    s.writeAll (entries.flatMap fun entry => entry.2.toList.flatMap fun value =>
        Candidate.spread selectors entry.1 value) =
      s.writeAll (entries.flatMap fun entry =>
        Candidate.spread selectors entry.1 (shown entry.2.toList)) := by
  induction entries generalizing s with
  | nil => rfl
  | cons entry rest ih =>
    rw [List.forall_mem_cons] at hvalues
    have hne : entry.2.toList ≠ [] := fun hnil =>
      hvalues.1 (Array.toList_eq_nil_iff.mp hnil)
    obtain ⟨first, others, hlist⟩ := List.exists_cons_of_ne_nil hne
    rw [List.flatMap_cons, List.flatMap_cons, writeAll_append, writeAll_append, hlist,
      writeAll_rounds h]
    exact ih (nodup_writeAll h _) hvalues.2

end SettledSheet

/-! ### Settling a sheet -/

def Style.settled (style : Style) : Table Text :=
  style.map fun values => shown values.toList

namespace Sheet

/-- The sheet with only the value that shows left to every property. -/
def settled (sheet : Sheet) : SettledSheet where
  styles := sheet.styles.map Style.settled
  others := { sheet with styles := ∅ }

theorem settled_start : settled {} = {} := by
  simp [settled]

theorem settled_add (style : Style) (property value : Text) :
    (style.add property value).settled =
      SettledSheet.putValue property value (some style.settled) := by
  refine Table.map_alter ?_ style property
  intro values
  cases values with
  | none => simp [shown]
  | some values => simp [shown]

theorem settled_addValue (sheet : Sheet) (selector property value : Text) :
    (sheet.addValue selector property value).settled =
      sheet.settled.write selector property value := by
  have hstyles : (sheet.styles.alter selector fun style =>
        Style.add (style.getD ∅) property value).map Style.settled =
      (sheet.styles.map Style.settled).alter selector
        (SettledSheet.putValue property value) := by
    refine Table.map_alter ?_ sheet.styles selector
    intro style
    cases style with
    | none =>
      rw [Option.getD_none, settled_add, Style.settled, Table.map_empty]
      rfl
    | some style => exact settled_add style property value
  simp only [settled, addValue, SettledSheet.write, hstyles]

theorem settled_addCandidates (sheet : Sheet) (candidates : List Candidate) :
    (sheet.addCandidates candidates).settled = sheet.settled.writeAll candidates := by
  induction candidates generalizing sheet with
  | nil => rfl
  | cons candidate rest ih =>
    have hlater := ih (sheet.addValue candidate.selector candidate.property candidate.value)
    rw [settled_addValue] at hlater
    exact hlater

theorem findClass?_settled (sheet : Sheet) (name : Text) :
    sheet.settled.findClass? name = (sheet.findClass? name).map Style.settled := by
  simp only [SettledSheet.findClass?, findClass?, settled, Table.get?_map]
  cases sheet.styles.get? ('.' :: name) <;> rfl

/-- Copying a style and settling is settling and copying one value for each property. -/
theorem settled_copyStyle {sheet : Sheet} (hnodup : sheet.styles.names.Nodup)
    (selectors : List Text) {style : Style} (hstyle : style.Filled) :
    (sheet.copyStyle selectors style).settled =
      sheet.settled.copyStyle selectors style.settled := by
  have hsettled : sheet.settled.styles.names.Nodup := by
    rw [settled, Table.names_map]
    exact hnodup
  rw [copyStyle, settled_addCandidates, Candidate.ofStyle,
    SettledSheet.writeAll_entries hsettled _ hstyle.values, SettledSheet.copyStyle,
    Style.settled, Table.entries_map, List.flatMap_map]

/-- What runs keep of a sheet: nothing in it is empty, and no selector stands twice. -/
structure Orderly (sheet : Sheet) : Prop where
  filled : sheet.Filled
  nodup : sheet.styles.names.Nodup

theorem filled_of_findClass? {sheet : Sheet} (h : sheet.Filled) {name : Text} {style : Style}
    (hstyle : sheet.findClass? name = some style) : style.Filled := by
  have hfound : ∀ selector, sheet.styles.get? selector = some style → style.Filled := by
    intro selector hget
    exact h.styles _ (Table.mem_of_get?_eq_some hget)
  rcases Option.or_eq_some_iff.mp hstyle with hdot | ⟨-, hbare⟩
  · exact hfound _ hdot
  · exact hfound _ hbare

theorem nodup_addCandidates {sheet : Sheet} (h : sheet.styles.names.Nodup)
    (candidates : List Candidate) : (sheet.addCandidates candidates).styles.names.Nodup := by
  induction candidates generalizing sheet with
  | nil => exact h
  | cons candidate rest ih => exact ih (Table.nodup_names_alter h _ _)

theorem Orderly.apply {sheet : Sheet} (h : sheet.Orderly) (edit : Edit) :
    (sheet.apply edit).Orderly := by
  refine ⟨h.filled.apply edit, ?_⟩
  cases edit with
  | style selector property value => exact Table.nodup_names_alter h.nodup _ _
  | keyframe animation label property value => exact h.nodup
  | motion name label property value => exact h.nodup
  | fontSource family source => exact h.nodup
  | fontDescriptor family property value => exact h.nodup
  | copyClass selectors name =>
    change ((sheet.applyClass? selectors name).getD sheet).styles.names.Nodup
    unfold applyClass?
    cases sheet.findClass? name with
    | none => exact h.nodup
    | some style => exact nodup_addCandidates h.nodup _

/-- **Settling goes along with every edit.** -/
theorem settled_hom : Keeping.Hom keeping SettledSheet.keeping settled Orderly where
  keeps := Orderly.apply
  map_apply := by
    intro sheet h edit
    cases edit with
    | style selector property value => exact settled_addValue sheet selector property value
    | keyframe animation label property value => rfl
    | motion name label property value => rfl
    | fontSource family source => rfl
    | fontDescriptor family property value => rfl
    | copyClass selectors name =>
      change ((sheet.applyClass? selectors name).getD sheet).settled =
        match sheet.settled.findClass? name with
        | none => sheet.settled
        | some style => sheet.settled.copyStyle selectors style
      rw [applyClass?, findClass?_settled]
      cases hclass : sheet.findClass? name with
      | none => rfl
      | some style =>
        exact settled_copyStyle h.nodup selectors (filled_of_findClass? h.filled hclass)
  map_lacks? := by
    intro sheet h edit
    cases edit with
    | copyClass selectors name =>
      simp only [keeping, SettledSheet.keeping, lacks?, SettledSheet.lacks?, findClass?_settled,
        Option.isSome_map]
    | _ => rfl

/-! ### Writing down -/

theorem block_settled (selector : Text) (style : Style) :
    { head := selector, declarations := style.settled.entries.map declarationOf } =
      style.block selector := by
  simp only [Style.block, Style.settled, Table.entries_map, List.map_map, getD_dominant?]
  rfl

theorem css_settled (sheet : Sheet) : sheet.settled.css = sheet.css := by
  have hempty : ∀ style : Style, style.settled.isEmpty = style.isEmpty := Table.isEmpty_map _
  simp only [SettledSheet.css, css, settled, Table.entries_map, List.filter_map, List.map_map,
    Function.comp_def, hempty, block_settled]

theorem render_settled {sheet : Sheet} (h : sheet.Filled) (minify : Bool) :
    sheet.render minify = .ok (sheet.settled.render minify) := by
  rw [render, if_pos h.isDecided, SettledSheet.render, css_settled]

end Sheet

/-- **Nothing is lost by deciding early which value shows.**  Statements run over a sheet that
    keeps one value for each property give the same stylesheet, plain and minified, and the
    same diagnostics as statements run over a sheet that keeps them all.  Selectors and
    properties come in the same order, and the one value of a property is the one that shows
    of all the values it was given. -/
theorem settled_run_agrees (options : Options) (statements : List Statement) :
    let run := Compilation.interpret options statements
    let early := SettledSheet.keeping.statements options.sourceName
      { modes := { strict := options.strict } } {} statements
    (∀ minify, run.state.sheet.render minify = .ok (early.kept.render minify)) ∧
    early.events = run.events ∧
    Event.log early.events = run.log ∧
    early.context = run.state.context ∧
    early.kept.styles.names = run.state.sheet.styles.names ∧
    ∀ selector style, run.state.sheet.styles.get? selector = some style →
      ∃ values, early.kept.styles.get? selector = some values ∧ values.names = style.names ∧
        ∀ property candidates, style.get? property = some candidates →
          ∃ value, values.get? property = some value ∧
            dominant candidates.toList = .ok value := by
  intro run early
  have hstart : Sheet.Orderly {} := ⟨Sheet.filled_start, List.nodup_nil⟩
  have hwhole := Sheet.statements_keeping options.sourceName
    { context := { modes := { strict := options.strict } } } statements
  obtain ⟨hend, hearly⟩ := Sheet.settled_hom.statements hstart options.sourceName
    { modes := { strict := options.strict } } statements
  rw [hwhole] at hend hearly
  rw [Sheet.settled_start] at hearly
  have hkept : early = { context := run.state.context, kept := run.state.sheet.settled
                         events := run.events } := hearly
  have hfilled : run.state.sheet.Filled := hend.filled
  rw [hkept]
  refine ⟨Sheet.render_settled hfilled, rfl, rfl, rfl, Table.names_map _ _, ?_⟩
  intro selector style hstyle
  refine ⟨style.settled, ?_, Table.names_map _ _, ?_⟩
  · rw [Sheet.settled, Table.get?_map, hstyle, Option.map_some]
  · intro property candidates hcandidates
    have hvalues := (hfilled.styles _ (Table.mem_of_get?_eq_some hstyle)).values
    have hne := hvalues _ (Table.mem_of_get?_eq_some hcandidates)
    refine ⟨shown candidates.toList, ?_, dominant_eq_shown ?_⟩
    · rw [Style.settled, Table.get?_map, hcandidates, Option.map_some]
    · exact fun hnil => hne (Array.toList_eq_nil_iff.mp hnil)

/-- A class with a value that insists and one that does not, copied onto a selector that is
    named twice, which is given one more value in the end. -/
theorem settled_run_agrees_copied :
    let statements : List Statement :=
      [{ content := ["$".toList, ".a".toList, "top".toList, "0 !important ".toList] },
       { content := ["$".toList, ".a".toList, "top".toList, "1".toList] },
       { content := ["$a".toList, ".b, .b".toList] },
       { content := ["$".toList, ".b".toList, "top".toList, "2".toList] }]
    let run := Compilation.interpret {} statements
    let early := SettledSheet.keeping.statements none {} {} statements
    let candidates : Array Text :=
      #["0 !important ".toList, "0 !important ".toList, "1".toList, "1".toList, "2".toList]
    ∃ style, run.state.sheet.styles.get? ".b".toList = some style ∧
      style.get? "top".toList = some candidates ∧
      ∃ values value, early.kept.styles.get? ".b".toList = some values ∧
        values.get? "top".toList = some value ∧ dominant candidates.toList = .ok value := by
  intro statements run early candidates
  have hvalues : ((run.state.sheet.styles.get? ".b".toList).bind fun style =>
      style.get? "top".toList) = some candidates := by decide +kernel
  obtain ⟨style, hstyle, hcandidates⟩ := Option.bind_eq_some_iff.mp hvalues
  obtain ⟨-, -, -, -, -, hall⟩ := settled_run_agrees {} statements
  obtain ⟨values, hfound, -, hshown⟩ := hall _ style hstyle
  obtain ⟨value, hvalue, hdominant⟩ := hshown _ candidates hcandidates
  exact ⟨style, hstyle, hcandidates, values, value, hfound, hvalue, hdominant⟩

end Dyehouse
