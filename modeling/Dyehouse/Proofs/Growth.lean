import Dyehouse.Proofs.Frame

/-!
# A compilation only grows

No edit takes anything out of a sheet.  The names of every table in it stay where they are and
new ones come after them, and the values of a property of a style are only ever added to.  A
value in a frame or of a font may be replaced, but its name stays.  The same goes for collections
and their variables, and no mode that has been turned on is turned off again.
-/

namespace Dyehouse

namespace Table

variable {α : Type}

/-- The names of `t` are the first names of `u`, and every value of `t` has become a value of `u`
    that it is related to. -/
def Grows (R : α → α → Prop) (t u : Table α) : Prop :=
  t.names <+: u.names ∧
    ∀ name old, t.get? name = some old → ∃ new, u.get? name = some new ∧ R old new

namespace Grows

variable {R : α → α → Prop} {t u v : Table α}

theorem refl (hR : ∀ a, R a a) (t : Table α) : Grows R t t := by
  constructor
  · exact List.prefix_refl _
  · intro name old hold
    exact ⟨old, hold, hR old⟩

theorem trans (hR : ∀ {a b c}, R a b → R b c → R a c) (htu : Grows R t u) (huv : Grows R u v) :
    Grows R t v := by
  constructor
  · exact htu.1.trans huv.1
  · intro name old hold
    obtain ⟨mid, hmid, holdmid⟩ := htu.2 name old hold
    obtain ⟨new, hnew, hmidnew⟩ := huv.2 name mid hmid
    exact ⟨new, hnew, hR holdmid hmidnew⟩

theorem empty (R : α → α → Prop) (t : Table α) : Grows R ∅ t := by
  constructor
  · exact List.nil_prefix
  · intro name old hold
    rw [get?_empty] at hold
    cases hold

/-- A write grows a table if it relates the value that it finds to the one that it leaves. -/
theorem alter (hR : ∀ a, R a a) {f : Option α → α} (hf : ∀ a, R a (f (some a))) (t : Table α)
    (name : Text) : Grows R t (t.alter name f) := by
  constructor
  · rw [names_alter]
    split
    · exact List.prefix_refl _
    · exact List.prefix_append _ _
  · intro other old hold
    rw [get?_alter]
    split
    · next heq =>
      rw [heq] at hold
      exact ⟨_, rfl, by rw [hold]; exact hf old⟩
    · exact ⟨old, hold, hR old⟩

/-- The tables inside of a table grow too, if one that is not there counts as empty. -/
theorem getD {R : α → α → Prop} {t u : Table (Table α)} (h : Grows (Grows R) t u) (name : Text) :
    Grows R ((t.get? name).getD ∅) ((u.get? name).getD ∅) := by
  cases hold : t.get? name with
  | none => exact empty R _
  | some old =>
    obtain ⟨new, hnew, hgrows⟩ := h.2 name old hold
    rw [hnew]
    exact hgrows

end Grows

end Table

/-! ### Sheets -/

/-- Values that may be replaced. -/
abbrev Replaces (_ _ : Text) : Prop := True

abbrev Style.Grows : Style → Style → Prop :=
  Table.Grows fun old new : Array Text => old.toList <+: new.toList

abbrev Frames.Grows : Frames → Frames → Prop :=
  Table.Grows (Table.Grows Replaces)

structure Font.Grows (old new : Font) : Prop where
  source : old.source.isSome → new.source.isSome
  descriptors : Table.Grows Replaces old.descriptors new.descriptors

namespace Sheet

structure Grows (old new : Sheet) : Prop where
  styles : Table.Grows Style.Grows old.styles new.styles
  animations : Table.Grows Frames.Grows old.animations new.animations
  motions : Table.Grows Frames.Grows old.motions new.motions
  fonts : Table.Grows Font.Grows old.fonts new.fonts

end Sheet

namespace Style

theorem Grows.refl (style : Style) : Style.Grows style style :=
  Table.Grows.refl (fun values => List.prefix_refl values.toList) style

theorem grows_add (style : Style) (property value : Text) :
    Style.Grows style (style.add property value) := by
  refine Table.Grows.alter (fun values => List.prefix_refl values.toList) ?_ style property
  intro values
  simp

end Style

namespace Frames

theorem Grows.refl (frames : Frames) : Frames.Grows frames frames :=
  Table.Grows.refl (fun frame => Table.Grows.refl (fun _ => trivial) frame) frames

theorem grows_set (frames : Frames) (label property value : Text) :
    Frames.Grows frames (frames.set label property value) := by
  refine Table.Grows.alter (fun frame => Table.Grows.refl (fun _ => trivial) frame) ?_ frames _
  intro frame
  exact Table.Grows.alter (fun _ => trivial) (fun _ => trivial) frame property

end Frames

theorem Font.Grows.refl (font : Font) : Font.Grows font font :=
  ⟨id, Table.Grows.refl (fun _ => trivial) _⟩

namespace Sheet

theorem Grows.refl (sheet : Sheet) : sheet.Grows sheet where
  styles := Table.Grows.refl Style.Grows.refl _
  animations := Table.Grows.refl Frames.Grows.refl _
  motions := Table.Grows.refl Frames.Grows.refl _
  fonts := Table.Grows.refl Font.Grows.refl _

theorem Grows.trans {a b c : Sheet} (hab : a.Grows b) (hbc : b.Grows c) : a.Grows c where
  styles := hab.styles.trans (Table.Grows.trans List.IsPrefix.trans) hbc.styles
  animations := hab.animations.trans
    (Table.Grows.trans (Table.Grows.trans fun _ _ => trivial)) hbc.animations
  motions := hab.motions.trans
    (Table.Grows.trans (Table.Grows.trans fun _ _ => trivial)) hbc.motions
  fonts := by
    refine hab.fonts.trans ?_ hbc.fonts
    intro x y z hxy hyz
    exact ⟨fun h => hyz.source (hxy.source h),
      hxy.descriptors.trans (fun _ _ => trivial) hyz.descriptors⟩

theorem grows_addValue (sheet : Sheet) (selector property value : Text) :
    sheet.Grows (sheet.addValue selector property value) := by
  refine ⟨?_, (Grows.refl sheet).animations, (Grows.refl sheet).motions, (Grows.refl sheet).fonts⟩
  refine Table.Grows.alter Style.Grows.refl ?_ _ selector
  intro style
  exact style.grows_add property value

theorem grows_addCandidates (sheet : Sheet) (candidates : List Candidate) :
    sheet.Grows (sheet.addCandidates candidates) := by
  induction candidates generalizing sheet with
  | nil => exact Grows.refl sheet
  | cons candidate rest ih => exact (grows_addValue sheet _ _ _).trans (ih _)

theorem grows_alter_set (table : Table Frames) (name label property value : Text) :
    Table.Grows Frames.Grows table (table.alter name fun frames =>
      Frames.set (frames.getD ∅) label property value) := by
  refine Table.Grows.alter Frames.Grows.refl ?_ table name
  intro frames
  exact frames.grows_set label property value

/-- **No edit takes anything out of a sheet.** -/
theorem grows_apply (sheet : Sheet) (edit : Edit) : sheet.Grows (sheet.apply edit) := by
  have hrefl := Grows.refl sheet
  cases edit with
  | style selector property value => exact grows_addValue sheet selector property value
  | keyframe name label property value =>
    exact ⟨hrefl.styles, grows_alter_set _ name label property value, hrefl.motions, hrefl.fonts⟩
  | motion name label property value =>
    exact ⟨hrefl.styles, hrefl.animations, grows_alter_set _ name label property value, hrefl.fonts⟩
  | fontSource family source =>
    refine ⟨hrefl.styles, hrefl.animations, hrefl.motions, ?_⟩
    refine Table.Grows.alter Font.Grows.refl ?_ _ family
    intro font
    exact ⟨fun _ => rfl, (Font.Grows.refl font).descriptors⟩
  | fontDescriptor family property value =>
    refine ⟨hrefl.styles, hrefl.animations, hrefl.motions, ?_⟩
    refine Table.Grows.alter Font.Grows.refl ?_ _ family
    intro font
    exact ⟨id, Table.Grows.alter (fun _ => trivial) (fun _ => trivial) _ property⟩
  | copyClass selectors name =>
    change sheet.Grows ((sheet.applyClass? selectors name).getD sheet)
    unfold applyClass?
    cases sheet.findClass? name with
    | none => exact hrefl
    | some style => exact grows_addCandidates sheet _

theorem grows_applyAll (sheet : Sheet) (edits : List Edit) :
    sheet.Grows (sheet.applyAll edits) := by
  induction edits generalizing sheet with
  | nil => exact Grows.refl sheet
  | cons edit rest ih => exact (grows_apply sheet edit).trans (ih _)

end Sheet

theorem State.grows_interpret (file : Option Text) (s : State) (statement : Statement) :
    s.sheet.Grows (s.interpret file statement).state.sheet := by
  rw [State.interpret_eq]
  cases s.context.plan statement.content with
  | error fault => exact Sheet.Grows.refl _
  | ok plan => exact s.sheet.grows_applyAll plan.edits

/-! ### Collections -/

structure Collection.Grows (old new : Collection) : Prop where
  values : Table.Grows Replaces old.values new.values
  defaults : Table.Grows Replaces old.defaults new.defaults

theorem Collection.Grows.refl (c : Collection) : c.Grows c where
  values := Table.Grows.refl (fun _ => trivial) _
  defaults := Table.Grows.refl (fun _ => trivial) _

theorem Collection.Grows.trans {a b c : Collection} (hab : a.Grows b) (hbc : b.Grows c) :
    a.Grows c where
  values := hab.values.trans (fun _ _ => trivial) hbc.values
  defaults := hab.defaults.trans (fun _ _ => trivial) hbc.defaults

theorem Collection.grows_write (c : Collection) (w : Write) : c.Grows (c.write w) := by
  have hrefl := Grows.refl c
  cases w with
  | value key value =>
    exact ⟨Table.Grows.alter (fun _ => trivial) (fun _ => trivial) _ key, hrefl.defaults⟩
  | fallback key value =>
    exact ⟨hrefl.values, Table.Grows.alter (fun _ => trivial) (fun _ => trivial) _ key⟩
  | tag tag => exact ⟨hrefl.values, hrefl.defaults⟩

namespace Registry

abbrev Grows (old new : Registry) : Prop :=
  Table.Grows Collection.Grows old.collections new.collections

theorem Grows.refl (r : Registry) : r.Grows r :=
  Table.Grows.refl Collection.Grows.refl _

theorem Grows.trans {p q r : Registry} (hpq : p.Grows q) (hqr : q.Grows r) : p.Grows r :=
  Table.Grows.trans Collection.Grows.trans hpq hqr

theorem grows_update (r : Registry) (name : Text) {f : Collection → Collection}
    (hf : ∀ c : Collection, c.Grows (f c)) : r.Grows (r.update name f) :=
  Table.Grows.alter Collection.Grows.refl hf _ name

theorem grows_loadAll (r : Registry) (names : List Text) : r.Grows (r.loadAll names) := by
  induction names generalizing r with
  | nil => exact Grows.refl r
  | cons name rest ih =>
    have hload : r.Grows (r.load name) := r.grows_update name Collection.Grows.refl
    exact hload.trans (ih (r.load name))

theorem grows_take (r : Registry) (step : Step) : r.Grows (r.take step) := by
  cases step with
  | collection name => exact r.grows_update name Collection.Grows.refl
  | activate name => exact r.grows_update name Collection.Grows.refl
  | load names => exact r.grows_loadAll names
  | write holder w => exact r.grows_update _ fun c => c.grows_write w

theorem grows_foldl_take (r : Registry) (steps : List Step) : r.Grows (steps.foldl take r) := by
  induction steps generalizing r with
  | nil => exact Grows.refl r
  | cons step rest ih => exact (r.grows_take step).trans (ih _)

end Registry

/-! ### Runs -/

/-- A mode that is on stays on. -/
theorem State.mode_interpret {mode : Modes → Bool}
    (hmode : mode { strict := true, dyegest := true } = true) (file : Option Text) {s : State}
    (statement : Statement) (h : mode s.context.modes = true) :
    mode (s.interpret file statement).state.context.modes = true := by
  rcases State.modes_interpret file s statement with hsame | ⟨-, hboth⟩
  · rw [hsame]
    exact h
  · rw [hboth]
    exact hmode

/-- Only a digested source sets the second mode, and it sets the first one with it. -/
theorem State.Reachable.strict_of_dyegest {s : State} (h : s.Reachable) :
    s.context.modes.dyegest = true → s.context.modes.strict = true := by
  induction h with
  | start strict => exact nofun
  | @interpret s _ file statement ih =>
    rcases State.modes_interpret file s statement with hsame | ⟨-, hboth⟩
    · rw [hsame]
      exact ih
    · rw [hboth]
      exact fun _ => rfl

theorem Run.grows_statements (file : Option Text) (start : State) (statements : List Statement) :
    start.sheet.Grows (Run.statements file start statements).state.sheet :=
  Run.state_statements_induction (P := fun s => start.sheet.Grows s.sheet) file
    (fun s statement h => h.trans (State.grows_interpret file s statement))
    (Sheet.Grows.refl _) statements

/-- **A compilation only grows.**  Every statement leaves all names of the sheet and of the
    collections where they are, at every level, and adds new ones after them; the values of a
    property of a style stay the first of its values.  It adds at most one diagnostic to the log
    and turns no mode off, and a digested source is held to strict mode. -/
theorem Run.compilation_only_grows (file : Option Text) (strict : Bool) (before : List Statement)
    (statement : Statement) :
    let start : State := { context := { modes := { strict } } }
    let old := Run.statements file start before
    let new := Run.statements file start (before ++ [statement])
    new.state = (old.state.interpret file statement).state ∧
    old.state.sheet.Grows new.state.sheet ∧
    old.state.context.registry.Grows new.state.context.registry ∧
    (∃ more : Log, more.length ≤ 1 ∧ new.log = old.log ++ more) ∧
    (old.state.context.modes.strict = true → new.state.context.modes.strict = true) ∧
    (old.state.context.modes.dyegest = true → new.state.context.modes.dyegest = true) ∧
    (new.state.context.modes.dyegest = true → new.state.context.modes.strict = true) := by
  intro start old new
  have hnew : new = { state := (old.state.interpret file statement).state
                      events := old.events ++ (old.state.interpret file statement).events } := by
    have happend := Run.statements_append file start before [statement]
    simp only [Run.statements, List.append_nil] at happend
    exact happend
  have hstate : new.state = (old.state.interpret file statement).state := by rw [hnew]
  have hreachable : new.state.Reachable :=
    (State.Reachable.start strict).statements file (before ++ [statement])
  refine ⟨hstate, ?_, ?_, ?_, ?_, ?_, hreachable.strict_of_dyegest⟩
  · rw [hstate]
    exact State.grows_interpret file old.state statement
  · rw [hstate, State.registry_interpret]
    exact Registry.grows_foldl_take _ _
  · refine ⟨(old.state.interpret file statement).log,
      State.length_log_interpret_le file old.state statement, ?_⟩
    rw [hnew]
    exact Event.log_append _ _
  · rw [hstate]
    exact State.mode_interpret rfl file statement
  · rw [hstate]
    exact State.mode_interpret rfl file statement

/-- In a digested source, a class that is copied onto itself keeps its values and gets them once
    more, and the source stays digested and strict. -/
theorem Run.compilation_only_grows_digested :
    let start : State := { context := { modes := { strict := false } } }
    let before : List Statement :=
      [{ content := ["$".toList, ".a".toList, "top".toList, "1px".toList] },
       { content := ["!dyegest".toList] }]
    let statement : Statement := { content := ["$a".toList, ".b, .a".toList] }
    let old := Run.statements none start before
    let new := Run.statements none start (before ++ [statement])
    old.state.context.modes.strict = true ∧ new.state.context.modes.strict = true ∧
      old.state.context.modes.dyegest = true ∧ new.state.context.modes.dyegest = true ∧
      old.state.sheet.styles.get? ".a".toList = some (Style.add ∅ "top".toList "1px".toList) ∧
      ∃ style, new.state.sheet.styles.get? ".a".toList = some style ∧
        Style.Grows (Style.add ∅ "top".toList "1px".toList) style := by
  intro start before statement old new
  have hstrict : old.state.context.modes.strict = true := by decide +kernel
  have hdyegest : old.state.context.modes.dyegest = true := by decide +kernel
  have hstyle : old.state.sheet.styles.get? ".a".toList =
      some (Style.add ∅ "top".toList "1px".toList) := by decide +kernel
  obtain ⟨-, hsheet, -, -, -, hkept, hboth⟩ :=
    Run.compilation_only_grows none false before statement
  exact ⟨hstrict, hboth (hkept hdyegest), hdyegest, hkept hdyegest, hstyle,
    hsheet.styles.2 _ _ hstyle⟩

end Dyehouse
