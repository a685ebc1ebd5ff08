import Mathlib.Control.Monad.Basic
import Dyehouse.Proofs.Dominance

/-!
# Applying classes

Applying a class copies its style onto selectors, value by value, into the table that the style
is read from.  The class may be among its own targets, and a target may become the class that a
later target of the same statement is given.

Copying is a matter of writes in each of some tables (`Table.alterInEach`), of the sheet and of
the settled sheet alike.  In the sheet every write counts, so the targets must be told apart for
the result to be what one expects.  In the settled sheet a write made twice is a write made once.
What a statement copies is then the same style from its first target to its last, and a second
application finds it everywhere already.
-/

namespace Dyehouse

/-! ### Sheets that edits lead to -/

namespace Sheet

/-- The sheets that edits lead to, whatever asks for them. -/
inductive Reachable : Sheet → Prop
  | start : Reachable {}
  | apply {sheet : Sheet} (h : Reachable sheet) (edit : Edit) : Reachable (sheet.apply edit)

namespace Reachable

variable {sheet : Sheet}

theorem applyAll (h : sheet.Reachable) (edits : List Edit) : (sheet.applyAll edits).Reachable := by
  induction edits generalizing sheet with
  | nil => exact h
  | cons edit rest ih => exact ih (h.apply edit)

theorem orderly (h : sheet.Reachable) : sheet.Orderly := by
  induction h with
  | start => exact ⟨filled_start, List.nodup_nil⟩
  | apply _ edit ih => exact ih.apply edit

end Reachable

/-- An edit writes to the styles by offering values, if at all. -/
theorem exists_candidates (sheet : Sheet) (edit : Edit) :
    ∃ candidates, (sheet.apply edit).styles = (sheet.addCandidates candidates).styles := by
  cases edit with
  | style selector property value => exact ⟨[{ selector, property, value }], rfl⟩
  | keyframe animation label property value => exact ⟨[], rfl⟩
  | motion name label property value => exact ⟨[], rfl⟩
  | fontSource family source => exact ⟨[], rfl⟩
  | fontDescriptor family property value => exact ⟨[], rfl⟩
  | copyClass selectors name =>
    simp only [Sheet.apply, applyClass?]
    cases sheet.findClass? name with
    | none => exact ⟨[], rfl⟩
    | some style => exact ⟨Candidate.ofStyle (Text.tidy selectors) style, rfl⟩

theorem nodup_properties_addCandidates {sheet : Sheet}
    (h : ∀ style ∈ sheet.styles.entries, style.2.names.Nodup) (candidates : List Candidate) :
    ∀ style ∈ (sheet.addCandidates candidates).styles.entries, style.2.names.Nodup := by
  induction candidates generalizing sheet with
  | nil => exact h
  | cons candidate rest ih =>
    apply ih
    refine Table.forall_mem_alter (P := fun style : Style => style.names.Nodup) h ?_ ?_
    · exact Table.nodup_names_alter (t := ∅) List.nodup_nil _ _
    · intro style hstyle
      exact Table.nodup_names_alter hstyle _ _

theorem Reachable.nodup_properties {sheet : Sheet} (h : sheet.Reachable) :
    ∀ style ∈ sheet.styles.entries, style.2.names.Nodup := by
  induction h with
  | start => simp
  | @apply sheet _ edit ih =>
    obtain ⟨candidates, hstyles⟩ := exists_candidates sheet edit
    rw [hstyles]
    exact nodup_properties_addCandidates ih candidates

theorem Reachable.nodup_of_findClass? {sheet : Sheet} (h : sheet.Reachable) {name : Text}
    {style : Style} (hstyle : sheet.findClass? name = some style) : style.names.Nodup := by
  rcases Option.or_eq_some_iff.mp hstyle with hdot | ⟨-, hbare⟩
  · exact h.nodup_properties _ (Table.mem_of_get?_eq_some hdot)
  · exact h.nodup_properties _ (Table.mem_of_get?_eq_some hbare)

end Sheet

theorem State.Reachable.sheet {s : State} (h : s.Reachable) : s.sheet.Reachable := by
  induction h with
  | start strict => exact .start
  | @interpret s _ file statement ih =>
    rw [State.interpret_eq]
    cases s.context.plan statement.content with
    | error fault => exact ih
    | ok plan => exact ih.applyAll plan.edits

/-! ### Copying a style -/

namespace Style

/-- Every value of every property, in order. -/
def offers (style : Style) : List (Text × Text) :=
  style.entries.flatMap fun entry => entry.2.toList.map fun value => (entry.1, value)

/-- Give a property one more value. -/
def offer (pair : Text × Text) : Text × (Option (Array Text) → Array Text) :=
  (pair.1, fun values => (values.getD #[]).push pair.2)

/-- Give a property all values of an entry. -/
def offerAll (entry : Text × Array Text) : Text × (Option (Array Text) → Array Text) :=
  (entry.1, fun values => values.getD #[] ++ entry.2)

theorem alterAll_offer_values (style : Style) (property : Text) {values : List Text}
    (h : values ≠ []) :
    style.alterAll ((values.map fun value => (property, value)).map offer) =
      style.alter property fun old => old.getD #[] ++ values.toArray := by
  induction values generalizing style with
  | nil => exact absurd rfl h
  | cons value rest ih =>
    rw [List.map_cons, List.map_cons, Table.alterAll_cons]
    by_cases hlast : rest = []
    · subst hlast
      simp only [List.map_nil, Table.alterAll, List.foldl_nil, offer, Array.push_eq_append]
    · rw [ih _ hlast, offer, Table.alter_alter]
      congr 1
      funext old
      simp

/-- Value by value or property by property, the same is copied. -/
theorem alterAll_offers {style : Style} (h : ∀ entry ∈ style.entries, entry.2 ≠ #[])
    (old : Style) :
    old.alterAll (style.offers.map offer) = old.alterAll (style.entries.map offerAll) := by
  unfold offers
  generalize style.entries = entries at h
  induction entries generalizing old with
  | nil => rfl
  | cons entry rest ih =>
    rw [List.forall_mem_cons] at h
    have hvalues : entry.2.toList ≠ [] := fun hnil => h.1 (Array.toList_eq_nil_iff.mp hnil)
    rw [List.flatMap_cons, List.map_append, Table.alterAll_append,
      alterAll_offer_values old entry.1 hvalues, ih _ h.2, List.map_cons, Table.alterAll_cons]
    rfl

theorem map_fst_offerAll (style : Style) :
    (style.entries.map offerAll).map Prod.fst = style.names := by
  simp [offerAll, Table.names]

end Style

namespace Sheet

theorem addCandidates_append (sheet : Sheet) (candidates more : List Candidate) :
    sheet.addCandidates (candidates ++ more) =
      (sheet.addCandidates candidates).addCandidates more :=
  List.foldl_append

theorem addCandidates_spread (sheet : Sheet) (selectors : List Text) (pair : Text × Text) :
    sheet.addCandidates (Candidate.spread selectors pair.1 pair.2) =
      { sheet with styles := sheet.styles.alterEach selectors fun style =>
          (style.getD ∅).alter (Style.offer pair).1 (Style.offer pair).2 } := by
  induction selectors generalizing sheet with
  | nil => rfl
  | cons selector rest ih => exact ih (sheet.addValue selector pair.1 pair.2)

theorem addCandidates_flatMap_spread (sheet : Sheet) (selectors : List Text)
    (pairs : List (Text × Text)) :
    sheet.addCandidates (pairs.flatMap fun pair => Candidate.spread selectors pair.1 pair.2) =
      { sheet with styles := sheet.styles.alterInEach selectors (pairs.map Style.offer) } := by
  induction pairs generalizing sheet with
  | nil => rfl
  | cons pair rest ih =>
    rw [List.flatMap_cons, addCandidates_append, addCandidates_spread, ih]
    rfl

theorem copyStyle_eq (sheet : Sheet) (selectors : List Text) (style : Style) :
    sheet.copyStyle selectors style =
      { sheet with
        styles := sheet.styles.alterInEach (Text.tidy selectors)
          (style.offers.map Style.offer) } := by
  rw [← addCandidates_flatMap_spread, copyStyle, Candidate.ofStyle, Style.offers,
    List.flatMap_assoc]
  simp only [List.flatMap_map]

/-- **A class is copied exactly as it was.**  Let the targets be told apart when they are
    stripped and the blank ones left out.  A class of which there is neither the selector with
    the dot nor the bare name changes nothing.  Otherwise every target, the class itself not
    excepted, has afterwards for each property of the class its old values followed by those that
    the class had before; properties that are new to it come after its old ones in the order of
    the class, and new selectors after the old ones in the order of the targets.  Everything else
    is as it was. -/
theorem class_copied_as_it_was {sheet : Sheet} (h : sheet.Reachable) {selectors : List Text}
    (hdistinct : (Text.tidy selectors).Nodup) (name : Text) :
    let targets := Text.tidy selectors
    let new := sheet.apply (.copyClass selectors name)
    (sheet.styles.get? ('.' :: name) = none → sheet.styles.get? name = none → new = sheet) ∧
    ∀ style : Style,
      (sheet.styles.get? ('.' :: name) = some style ∨
        sheet.styles.get? ('.' :: name) = none ∧ sheet.styles.get? name = some style) →
      new = { sheet with styles := new.styles } ∧
      new.styles.names =
        sheet.styles.names ++ targets.filter (fun target => target ∉ sheet.styles.names) ∧
      (∀ selector, selector ∉ targets →
        new.styles.get? selector = sheet.styles.get? selector) ∧
      ∀ target ∈ targets,
        let old : Style := (sheet.styles.get? target).getD ∅
        ∃ copied : Style, new.styles.get? target = some copied ∧
          copied.names = old.names ++ style.names.filter (fun property => property ∉ old.names) ∧
          (∀ property values, style.get? property = some values →
            copied.get? property = some ((old.get? property).getD #[] ++ values)) ∧
          ∀ property, style.get? property = none →
            copied.get? property = old.get? property := by
  intro targets new
  constructor
  · intro hdot hbare
    change (sheet.applyClass? selectors name).getD sheet = sheet
    rw [applyClass?, findClass?, hdot, hbare]
    rfl
  · intro style hstyle
    have hclass : sheet.findClass? name = some style := Option.or_eq_some_iff.mpr hstyle
    have hfilled := filled_of_findClass? h.orderly.filled hclass
    have hnodup := h.nodup_of_findClass? hclass
    have hnames := style.map_fst_offerAll
    have hnew : new = { sheet with
        styles := sheet.styles.alterInEach targets (style.offers.map Style.offer) } := by
      change (sheet.applyClass? selectors name).getD sheet = _
      rw [applyClass?, hclass, ← copyStyle_eq]
      rfl
    -- the class has a property and the property has a value, so there is something to copy
    have hne : style.offers.map Style.offer ≠ [] := by
      obtain ⟨entry, rest, hentries⟩ := List.exists_cons_of_ne_nil hfilled.properties
      have hvalues := hfilled.values entry (hentries ▸ List.mem_cons_self)
      simp [Style.offers, hentries, hvalues]
    rw [hnew]
    refine ⟨rfl, Table.names_alterInEach hdistinct _ hne, ?_, ?_⟩
    · intro selector hselector
      exact Table.get?_alterInEach_of_not_mem hselector _ _
    · intro target htarget old
      refine ⟨old.alterAll (style.entries.map Style.offerAll), ?_, ?_, ?_, ?_⟩
      · rw [← Style.alterAll_offers hfilled.values]
        exact Table.get?_alterInEach_of_mem (Or.inl hdistinct) hne htarget _
      · rw [Table.names_alterAll (hnames.symm ▸ hnodup), hnames]
      · intro property values hvalues
        have hmem := List.mem_map_of_mem (f := Style.offerAll) (Table.mem_of_get?_eq_some hvalues)
        exact Table.get?_alterAll_of_mem (hnames.symm ▸ hnodup) hmem old
      · intro property hproperty
        apply Table.get?_alterAll_of_not_mem
        rw [hnames]
        exact Table.get?_eq_none_iff.mp hproperty

/-- A class copied onto itself, onto an element that has one of its properties already, and onto
    a selector that is new. -/
theorem class_copied_as_it_was_onto_itself :
    let before : List Statement :=
      [{ content := ["$".toList, ".a".toList, "top".toList, "1".toList] },
       { content := ["$".toList, "h1".toList, "left, top".toList, "2".toList] },
       { content := ["$".toList, ".a".toList, "color, top".toList, "3".toList] }]
    let sheet := (Run.statements none {} before).state.sheet
    let selectors := [" .b".toList, " ".toList, "h1\t".toList, ".a".toList]
    let new := sheet.apply (.copyClass selectors "a".toList)
    let top := "top".toList
    (Text.tidy selectors).Nodup ∧ sheet.Reachable ∧
      new.styles.names = [".a".toList, "h1".toList, ".b".toList] ∧
      (∃ copied, new.styles.get? ".a".toList = some copied ∧
        copied.get? top = some (#["1".toList, "3".toList] ++ #["1".toList, "3".toList])) ∧
      ∃ copied, new.styles.get? "h1".toList = some copied ∧
        copied.names = ["left".toList, top, "color".toList] ∧
        copied.get? top = some (#["2".toList] ++ #["1".toList, "3".toList]) := by
  intro before sheet selectors new top
  have hdistinct : (Text.tidy selectors).Nodup := by decide
  have hsheet : sheet.Reachable := ((State.Reachable.start false).statements none before).sheet
  have hselectors : sheet.styles.names = [".a".toList, "h1".toList] := by decide +kernel
  have hclass : sheet.styles.get? ('.' :: "a".toList) =
      some (Table.ofList [(top, #["1".toList, "3".toList]), ("color".toList, #["3".toList])]) := by
    decide +kernel
  have hold : sheet.styles.get? "h1".toList =
      some (Table.ofList [("left".toList, #["2".toList]), (top, #["2".toList])]) := by
    decide +kernel
  clear_value sheet
  obtain ⟨-, hcopied⟩ := class_copied_as_it_was hsheet hdistinct "a".toList
  obtain ⟨-, hnames, -, htargets⟩ := hcopied _ (Or.inl hclass)
  obtain ⟨itself, hitself, -, hvalues, -⟩ := htargets ('.' :: "a".toList) (by decide)
  obtain ⟨h1, hh1, hproperties, hh1values, -⟩ := htargets "h1".toList (by decide)
  rw [hselectors] at hnames
  rw [hclass] at hvalues
  rw [hold] at hproperties hh1values
  refine ⟨hdistinct, hsheet, hnames.trans (by decide +kernel), ⟨itself, hitself, ?_⟩,
    h1, hh1, hproperties.trans (by decide +kernel), ?_⟩
  · exact hvalues top #["1".toList, "3".toList] (by decide +kernel)
  · exact hh1values top #["1".toList, "3".toList] (by decide +kernel)

end Sheet

/-! ### Copying a settled style -/

namespace SettledSheet

/-- What is left of an old value, if there is one, when a value is written. -/
def overlay (value : Text) : Option Text → Text
  | none => value
  | some old => settle old value

/-- The writes that put each property of a style over the one that is there. -/
def writes (style : Table Text) : List (Text × (Option Text → Text)) :=
  style.entries.map fun entry => (entry.1, overlay entry.2)

theorem overlay_overlay (value : Text) (old : Option Text) :
    overlay value (some (overlay value old)) = overlay value old := by
  cases old with
  | none => exact settle_self value
  | some old =>
    change settle (settle old value) value = settle old value
    rw [settle_assoc, settle_self]

theorem overlay_overlay_of_mem_writes {style : Table Text} :
    ∀ write ∈ writes style, ∀ old, write.2 (some (write.2 old)) = write.2 old := by
  intro write hwrite old
  obtain ⟨entry, -, rfl⟩ := List.mem_map.mp hwrite
  exact overlay_overlay entry.2 old

theorem map_fst_writes (style : Table Text) : (writes style).map Prod.fst = style.names := by
  simp [writes, Table.names]

theorem copyStyle_eq (s : SettledSheet) (selectors : List Text) (style : Table Text) :
    s.copyStyle selectors style =
      { s with styles := s.styles.alterInEach (Text.tidy selectors) (writes style) } := by
  unfold copyStyle writes
  generalize style.entries = entries
  induction entries generalizing s with
  | nil => rfl
  | cons entry rest ih =>
    rw [List.flatMap_cons, writeAll_append, writeAll_spread, ih]
    rfl

/-- A style written into an empty one comes out as it is. -/
theorem alterAll_writes_empty {style : Table Text} (h : style.names.Nodup) :
    (∅ : Table Text).alterAll (writes style) = style := by
  have hnames := map_fst_writes style
  have hwrites : ((∅ : Table Text).alterAll (writes style)).names = style.names := by
    rw [Table.names_alterAll (hnames.symm ▸ h), hnames]
    simp [Table.names]
  refine Table.ext_get? (hwrites.symm ▸ h) hwrites ?_
  intro property
  cases hvalue : style.get? property with
  | none =>
    rw [Table.get?_alterAll_of_not_mem, Table.get?_empty]
    rw [hnames]
    exact Table.get?_eq_none_iff.mp hvalue
  | some value =>
    have hmem : (property, overlay value) ∈ writes style :=
      List.mem_map.mpr ⟨_, Table.mem_of_get?_eq_some hvalue, rfl⟩
    rw [Table.get?_alterAll_of_mem (hnames.symm ▸ h) hmem, Table.get?_empty]
    rfl

theorem absorbs_self {style : Table Text} (h : style.names.Nodup) :
    style.Absorbs (writes style) := by
  intro write hwrite
  obtain ⟨entry, hentry, rfl⟩ := List.mem_map.mp hwrite
  exact ⟨entry.2, (Table.get?_eq_some_iff h).mpr hentry, settle_self entry.2⟩

/-! ### Applying a class again -/

/-- The class has this style, and each of the selectors has taken it in. -/
structure Applied (s : SettledSheet) (name : Text) (style : Table Text) (selectors : List Text) :
    Prop where
  nodup : style.names.Nodup
  ne_nil : style.entries ≠ []
  found : s.findClass? name = some style
  taken : ∀ selector ∈ selectors, ∃ own, s.styles.get? selector = some own ∧
    own.Absorbs (writes style)

section Application

variable {s : SettledSheet} {name : Text} {style : Table Text} {selectors : List Text}

theorem apply_copyClass (h : s.findClass? name = some style) (targets : List Text) :
    s.apply (.copyClass targets name) =
      { s with styles := s.styles.alterInEach (Text.tidy targets) (writes style) } := by
  rw [← copyStyle_eq]
  simp only [apply, h]

namespace Applied

theorem get?_of_mem (h : s.Applied name style selectors) {targets : List Text} {target : Text}
    (htarget : target ∈ Text.tidy targets) :
    (s.apply (.copyClass targets name)).styles.get? target =
      some (((s.styles.get? target).getD ∅).alterAll (writes style)) := by
  rw [apply_copyClass h.found]
  refine Table.get?_alterInEach_of_mem (Or.inr overlay_overlay_of_mem_writes) ?_ htarget _
  simpa [writes] using h.ne_nil

theorem get?_of_not_mem (h : s.Applied name style selectors) {targets : List Text} {target : Text}
    (htarget : target ∉ Text.tidy targets) :
    (s.apply (.copyClass targets name)).styles.get? target = s.styles.get? target := by
  rw [apply_copyClass h.found]
  exact Table.get?_alterInEach_of_not_mem htarget _ _

/-- A selector that has the style of the class keeps it, and one that has none is left without
    one or gets just that. -/
theorem get?_cases (h : s.Applied name style selectors) (targets : List Text) (selector : Text) :
    let new := (s.apply (.copyClass targets name)).styles.get? selector
    (s.styles.get? selector = some style → new = some style) ∧
      (s.styles.get? selector = none → new = none ∨ new = some style) := by
  intro new
  by_cases hmem : selector ∈ Text.tidy targets
  · have hnew : new = _ := h.get?_of_mem hmem
    rw [hnew]
    constructor
    · intro hstyle
      rw [hstyle, Option.getD_some, (absorbs_self h.nodup).alterAll_eq]
    · intro hnone
      rw [hnone, Option.getD_none, alterAll_writes_empty h.nodup]
      exact Or.inr rfl
  · have hnew : new = _ := h.get?_of_not_mem hmem
    rw [hnew]
    exact ⟨id, Or.inl⟩

/-- **The class stays what it is**, also where one of its targets comes to be found in its
    place. -/
theorem found_apply (h : s.Applied name style selectors) (targets : List Text) :
    (s.apply (.copyClass targets name)).findClass? name = some style := by
  obtain ⟨hkeeps, hgets⟩ := h.get?_cases targets ('.' :: name)
  apply Option.or_eq_some_iff.mpr
  rcases Option.or_eq_some_iff.mp h.found with hdot | ⟨hdot, hbare⟩
  · exact Or.inl (hkeeps hdot)
  · have hbare' := (h.get?_cases targets name).1 hbare
    rcases hgets hdot with hnone | hsome
    · exact Or.inr ⟨hnone, hbare'⟩
    · exact Or.inl hsome

theorem apply (h : s.Applied name style selectors) (targets : List Text) :
    (s.apply (.copyClass targets name)).Applied name style (selectors ++ Text.tidy targets) where
  nodup := h.nodup
  ne_nil := h.ne_nil
  found := h.found_apply targets
  taken := by
    intro selector hselector
    by_cases hmem : selector ∈ Text.tidy targets
    · refine ⟨_, h.get?_of_mem hmem, ?_⟩
      refine Table.absorbs_alterAll ?_ overlay_overlay_of_mem_writes _
      rw [map_fst_writes]
      exact h.nodup
    · rw [h.get?_of_not_mem hmem]
      exact h.taken selector ((List.mem_append.mp hselector).resolve_right hmem)

/-- Targets that have taken the class in are given nothing new. -/
theorem apply_eq_self (h : s.Applied name style selectors) {targets : List Text}
    (htargets : Text.tidy targets ⊆ selectors) : s.apply (.copyClass targets name) = s := by
  rw [apply_copyClass h.found, Table.alterInEach_eq_self]
  intro target htarget
  exact h.taken target (htargets htarget)

end Applied

/-- The edits that apply a class to target after target. -/
def applications (name : Text) (lists : List (List Text)) : List Edit :=
  lists.map fun targets => .copyClass targets name

theorem Applied.applyAll (h : s.Applied name style selectors) (lists : List (List Text)) :
    (keeping.applyAll s (applications name lists)).Applied name style
      (selectors ++ lists.flatMap Text.tidy) := by
  induction lists generalizing s selectors with
  | nil =>
    rw [List.flatMap_nil, List.append_nil]
    exact h
  | cons targets rest ih =>
    rw [List.flatMap_cons, ← List.append_assoc]
    exact ih (h.apply targets)

theorem Applied.applyAll_eq_self (h : s.Applied name style selectors) {lists : List (List Text)}
    (hlists : lists.flatMap Text.tidy ⊆ selectors) :
    keeping.applyAll s (applications name lists) = s := by
  induction lists with
  | nil => rfl
  | cons targets rest ih =>
    rw [List.flatMap_cons, List.append_subset] at hlists
    change keeping.applyAll (s.apply (.copyClass targets name)) (applications name rest) = s
    rw [h.apply_eq_self hlists.1]
    exact ih hlists.2

theorem applyAll_of_findClass?_eq_none (h : s.findClass? name = none) (lists : List (List Text)) :
    keeping.applyAll s (applications name lists) = s := by
  induction lists with
  | nil => rfl
  | cons targets rest ih =>
    have hfirst : s.apply (.copyClass targets name) = s := by
      simp only [SettledSheet.apply, h]
    change keeping.applyAll (s.apply (.copyClass targets name)) (applications name rest) = s
    rw [hfirst, ih]

/-- Applying a class to its targets a second time changes nothing. -/
theorem applyAll_applyAll
    (hclass : ∀ style, s.findClass? name = some style → style.names.Nodup ∧ style.entries ≠ [])
    (lists : List (List Text)) :
    keeping.applyAll (keeping.applyAll s (applications name lists)) (applications name lists) =
      keeping.applyAll s (applications name lists) := by
  cases hfound : s.findClass? name with
  | none => simp only [applyAll_of_findClass?_eq_none hfound]
  | some style =>
    obtain ⟨hnodup, hne⟩ := hclass style hfound
    have hstart : s.Applied name style [] := ⟨hnodup, hne, hfound, by simp⟩
    exact (hstart.applyAll lists).applyAll_eq_self (List.Subset.refl _)

end Application

end SettledSheet

/-! ### Statements -/

/-- A statement that starts with a class query fails on one of its targets, or applies the class
    to all of them. -/
theorem Context.plan_of_classQuery {c : Context} {token query name : Text}
    (hquery : c.evaluate token = .ok query) (hname : ClassQuery.ofToken? query = some name)
    (rest : List Text) :
    (∃ fault, c.plan (token :: rest) = .error fault) ∨
      ∃ targets, c.plan (token :: rest) = .ok (c.applyClass name targets) := by
  cases hrest : c.evaluateAll rest with
  | error fault => exact Or.inl ⟨fault, by simp [plan, evaluateAll, hquery, hrest]⟩
  | ok targets =>
    exact Or.inr ⟨targets, by simp [plan, evaluateAll, hquery, hrest, dispatch, hname]⟩

theorem Sheet.Reachable.settled_applyAll {sheet : Sheet} (h : sheet.Reachable)
    (edits : List Edit) :
    (sheet.applyAll edits).settled = SettledSheet.keeping.applyAll sheet.settled edits :=
  (Sheet.settled_hom.map_applyAll h.orderly edits).symm

/-- Applied twice, a class shows as it does when it is applied once. -/
theorem Sheet.Reachable.settled_applyClass {sheet : Sheet} (h : sheet.Reachable) (c : Context)
    (name : Text) (targets : List Text) :
    let edits := (c.applyClass name targets).edits
    ((sheet.applyAll edits).applyAll edits).settled = (sheet.applyAll edits).settled := by
  intro edits
  have hedits : edits = SettledSheet.applications name (targets.map targetSelectors) := by
    simp [edits, Context.applyClass, SettledSheet.applications]
  rw [(h.applyAll edits).settled_applyAll, h.settled_applyAll, hedits]
  apply SettledSheet.applyAll_applyAll
  intro style hstyle
  rw [findClass?_settled] at hstyle
  obtain ⟨own, hown, rfl⟩ := Option.map_eq_some_iff.mp hstyle
  constructor
  · rw [Style.settled, Table.names_map]
    exact h.nodup_of_findClass? hown
  · have hfilled := filled_of_findClass? h.orderly.filled hown
    simpa [Style.settled] using hfilled.properties

/-- **Applying a class is idempotent.**  A statement that starts with a class query, whatever its
    targets are, gives the same stylesheet carried out twice in a row as carried out once, plain
    and minified.  The sheets behind the two need not be the same. -/
theorem State.application_idempotent {s : State} (hs : s.Reachable) (file : Option Text)
    {statement : Statement} {token query name : Text} {rest : List Text}
    (hcontent : statement.content = token :: rest)
    (hquery : s.context.evaluate token = .ok query)
    (hname : ClassQuery.ofToken? query = some name) (minify : Bool) :
    let once := (Run.statements file s [statement]).state
    let twice := (Run.statements file s [statement, statement]).state
    ∃ css, once.sheet.render minify = .ok css ∧ twice.sheet.render minify = .ok css := by
  intro once twice
  have honce : once.Reachable := hs.statements file [statement]
  have htwice : twice.Reachable := hs.statements file [statement, statement]
  have hsettled : twice.sheet.settled = once.sheet.settled := by
    change ((s.interpret file statement).state.interpret file statement).state.sheet.settled =
      (s.interpret file statement).state.sheet.settled
    rcases Context.plan_of_classQuery hquery hname rest with
      ⟨fault, hplan⟩ | ⟨targets, hplan⟩
    · have hsame : (s.interpret file statement).state = s := by
        rw [State.interpret_eq, hcontent, hplan]
      rw [hsame, hsame]
    · -- the context is the same the second time, and so is the plan
      have hstep : ∀ t : State, t.context = s.context →
          (t.interpret file statement).state = t.follow (s.context.applyClass name targets) := by
        intro t ht
        rw [State.interpret_eq, ht, hcontent, hplan]
      rw [hstep s rfl, hstep (s.follow _) rfl]
      exact hs.sheet.settled_applyClass s.context name targets
  refine ⟨once.sheet.settled.render minify, ?_, ?_⟩
  · exact Sheet.render_settled honce.sheet.orderly.filled minify
  · rw [← hsettled]
    exact Sheet.render_settled htwice.sheet.orderly.filled minify

/-- The class is found under its bare name until the statement itself makes it a class with a
    dot, and a target comes twice. -/
theorem State.application_idempotent_promoted :
    let before : List Statement :=
      [{ content := ["$".toList, "a".toList, "top".toList, "0 !important".toList] },
       { content := ["$".toList, "a, .b".toList, "top, left".toList, "1".toList] },
       { content := ["@".toList, "q".toList, "$a".toList] }]
    let statement : Statement :=
      { content := ["&q".toList, ".b, .b".toList, "$a".toList, "a".toList, ".c, .a".toList] }
    let s := (Run.statements none {} before).state
    let once := (Run.statements none s [statement]).state
    let twice := (Run.statements none s [statement, statement]).state
    s.sheet.styles.get? ".a".toList = none ∧ once.sheet.styles.get? ".a".toList ≠ none ∧
      twice.sheet ≠ once.sheet ∧
      ∃ css, once.sheet.render true = .ok css ∧ twice.sheet.render true = .ok css := by
  intro before statement s once twice
  have hs : s.Reachable := (Reachable.start false).statements none before
  have hbefore : s.sheet.styles.get? ".a".toList = none := by decide +kernel
  have hafter : once.sheet.styles.get? ".a".toList ≠ none := by decide +kernel
  have hgrows : twice.sheet ≠ once.sheet := by decide +kernel
  have hquery : s.context.evaluate "&q".toList = .ok "$a".toList := by decide +kernel
  have hname : ClassQuery.ofToken? "$a".toList = some "a".toList := by decide
  exact ⟨hbefore, hafter, hgrows, application_idempotent hs none rfl hquery hname true⟩

end Dyehouse
