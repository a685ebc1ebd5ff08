import Dyehouse.Proofs.Growth
import Dyehouse.Proofs.Keys
import Dyehouse.Proofs.Sheet

/-!
# Properties as they were authored

A declaration is kept under its property in the spelling with capitals and shown in the spelling
with dashes.  Here the property of a declaration is followed from the statement that makes it,
through everything that comes after, into the block of the stylesheet that shows it.  What a
reader finds there is the property as it was authored without the dashes that stand directly
before a digit; two properties that differ in nothing else have become one.
-/

namespace Dyehouse

/-! ### Where declarations are kept -/

/-- The names in the table that is kept under a name. -/
def Table.namesAt {α : Type} (t : Table (Table α)) (name : Text) : List Text :=
  ((t.get? name).getD ∅).names

/-- The properties kept under a selector, in the place that a route leads to while a collection
    is active. -/
def Sheet.propertiesAt (sheet : Sheet) (route : Route) (holder selector : Text) : List Text :=
  match route with
  | .implicit | .style => sheet.styles.namesAt selector
  | .animation => ((sheet.animations.get? holder).getD ∅).namesAt selector
  | .motion => ((sheet.motions.get? holder).getD ∅).namesAt selector
  | .font => []

/-- The blocks in the place that a route leads to while a collection is active. -/
def Css.blocksAt (css : Css) (route : Route) (holder : Text) : List Css.Block :=
  match route with
  | .implicit | .style => css.rules
  | .animation => (css.keyframes.filter fun k => k.name = holder).flatMap Css.Keyframes.frames
  | .motion => (css.reducedMotion.filter fun k => k.name = holder).flatMap Css.Keyframes.frames
  | .font => []

theorem Table.mem_names_alter_self {α : Type} (t : Table α) (name : Text) (f : Option α → α) :
    name ∈ (t.alter name f).names :=
  mem_names_iff.mpr ⟨_, get?_alter_self t name f⟩

theorem Table.exists_of_mem_namesAt {α : Type} {t : Table (Table α)} {name inner : Text}
    (h : inner ∈ t.namesAt name) :
    ∃ u, (name, u) ∈ t.entries ∧ inner ∈ u.names ∧ t.namesAt name = u.names := by
  unfold namesAt at h ⊢
  cases hget : t.get? name with
  | none =>
    rw [hget] at h
    cases h
  | some u =>
    rw [hget] at h
    exact ⟨u, mem_of_get?_eq_some hget, h, rfl⟩

theorem Frames.mem_namesAt_set (frames : Frames) {label : Text} (hlabel : label.IsItem)
    (property value : Text) : property ∈ Table.namesAt (frames.set label property value) label := by
  rw [Frames.set, hlabel.strip_eq, Table.namesAt, Table.get?_alter_self]
  exact Table.mem_names_alter_self _ _ _

theorem Sheet.mem_propertiesAt_declare (sheet : Sheet) {active : Collection} {selector : Text}
    (hselector : selector.IsItem) (hroute : active.route ≠ .font) (property value : Text) :
    property ∈ (sheet.apply (.declare active selector property value)).propertiesAt
      active.route active.name selector := by
  unfold Edit.declare
  cases hcase : active.route with
  | font => exact absurd hcase hroute
  | animation =>
    simp only [apply, setKeyframe, propertiesAt, Table.get?_alter_self, Option.getD_some]
    exact Frames.mem_namesAt_set _ hselector property value
  | motion =>
    simp only [apply, setMotion, propertiesAt, Table.get?_alter_self, Option.getD_some]
    exact Frames.mem_namesAt_set _ hselector property value
  | implicit =>
    simp only [apply, addValue, propertiesAt, Table.namesAt, Table.get?_alter_self,
      Option.getD_some]
    exact Table.mem_names_alter_self _ _ _
  | style =>
    simp only [apply, addValue, propertiesAt, Table.namesAt, Table.get?_alter_self,
      Option.getD_some]
    exact Table.mem_names_alter_self _ _ _

theorem Sheet.Grows.propertiesAt {old new : Sheet} (h : old.Grows new) (route : Route)
    (holder selector : Text) :
    old.propertiesAt route holder selector <+: new.propertiesAt route holder selector := by
  cases route with
  | implicit => exact (h.styles.getD selector).1
  | style => exact (h.styles.getD selector).1
  | animation => exact ((h.animations.getD holder).getD selector).1
  | motion => exact ((h.motions.getD holder).getD selector).1
  | font => exact List.prefix_refl _

/-! ### How they are shown -/

theorem Frames.exists_block {table : Table Frames} {holder selector property : Text}
    (h : property ∈ Table.namesAt ((table.get? holder).getD ∅) selector) :
    ∃ block ∈ ((table.entries.map fun entry => Frames.keyframes entry.1 entry.2).filter
        fun k => k.name = holder).flatMap Css.Keyframes.frames,
      block.head = selector ∧ Css.properties block.declarations =
        (Table.namesAt ((table.get? holder).getD ∅) selector).map Text.kebabCase := by
  obtain ⟨frame, hframe, -, hnames⟩ := Table.exists_of_mem_namesAt h
  cases hget : table.get? holder with
  | none =>
    rw [hget] at hframe
    cases hframe
  | some frames =>
    rw [hget] at hframe hnames
    refine ⟨{ head := selector, declarations := frame.entries.map declarationOf }, ?_, rfl, ?_⟩
    · refine List.mem_flatMap.mpr ⟨frames.keyframes holder, ?_, ?_⟩
      · rw [List.mem_filter, List.mem_map]
        exact ⟨⟨_, Table.mem_of_get?_eq_some hget, rfl⟩, decide_eq_true rfl⟩
      · exact List.mem_map.mpr ⟨_, hframe, rfl⟩
    · rw [hnames]
      exact Css.properties_map_declarationOf frame

/-- What is kept under a selector is shown in one block, in the spelling with dashes. -/
theorem Sheet.exists_block {sheet : Sheet} {route : Route} {holder selector property : Text}
    (h : property ∈ sheet.propertiesAt route holder selector) :
    ∃ block ∈ sheet.css.blocksAt route holder, block.head = selector ∧
      Css.properties block.declarations =
        (sheet.propertiesAt route holder selector).map Text.kebabCase := by
  have hrule : property ∈ sheet.styles.namesAt selector →
      ∃ block ∈ sheet.css.rules, block.head = selector ∧
        Css.properties block.declarations =
          (sheet.styles.namesAt selector).map Text.kebabCase := by
    intro hproperty
    obtain ⟨style, hstyle, hin, hnames⟩ := Table.exists_of_mem_namesAt hproperty
    refine ⟨Style.block selector style, ?_, rfl, ?_⟩
    · refine List.mem_map.mpr ⟨(selector, style), List.mem_filter.mpr ⟨hstyle, ?_⟩, rfl⟩
      rw [Table.isEmpty_eq]
      cases hentries : style.entries with
      | nil =>
        rw [Table.names, hentries] at hin
        cases hin
      | cons entry rest => rfl
    · rw [hnames]
      exact Style.properties_block selector style
  cases route with
  | implicit => exact hrule h
  | style => exact hrule h
  | animation => exact Frames.exists_block h
  | motion => exact Frames.exists_block h
  | font => cases h

theorem Table.nodup_namesAt {α : Type} {t : Table (Table α)}
    (h : ∀ entry ∈ t.entries, entry.2.Keyed Text.IsProperty) (name : Text) :
    ((t.namesAt name).map Text.kebabCase).Nodup := by
  unfold namesAt
  cases hget : t.get? name with
  | none => exact List.nodup_nil
  | some u => exact (h _ (mem_of_get?_eq_some hget)).nodup_kebabCase

theorem Frames.nodup_namesAt {table : Table Frames}
    (h : ∀ entry ∈ table.entries, Frames.Keyed entry.2) (holder selector : Text) :
    ((Table.namesAt ((table.get? holder).getD ∅) selector).map Text.kebabCase).Nodup := by
  refine Table.nodup_namesAt ?_ selector
  cases hget : table.get? holder with
  | none => exact List.forall_mem_nil _
  | some frames => exact (h _ (Table.mem_of_get?_eq_some hget)).properties

theorem Sheet.Keyed.nodup_propertiesAt {sheet : Sheet} (h : sheet.Keyed) (route : Route)
    (holder selector : Text) :
    ((sheet.propertiesAt route holder selector).map Text.kebabCase).Nodup := by
  cases route with
  | implicit => exact Table.nodup_namesAt h.properties selector
  | style => exact Table.nodup_namesAt h.properties selector
  | animation => exact Frames.nodup_namesAt h.animations holder selector
  | motion => exact Frames.nodup_namesAt h.motions holder selector
  | font => exact List.nodup_nil

/-! ### Statements that declare -/

/-- The evaluated statement declares a property, as it was authored, under a selector. -/
def Context.Declares (c : Context) (content : List Text) (selector name : Text) : Prop :=
  ∃ keyword list rest pairs, c.command? content = some (keyword, list :: rest) ∧
    (keyword = .style ∨ keyword = .classStyle) ∧ pairUp rest = .ok pairs ∧
    selector ∈ Text.items list ∧ ∃ pair ∈ pairs, name ∈ Text.items pair.1

theorem Context.Declares.exists_edit {c : Context} {content : List Text} {selector name : Text}
    (h : c.Declares content selector name) :
    ∃ plan value, c.plan content = .ok plan ∧
      Edit.declare c.registry.active selector (Text.camelCase name) value ∈ plan.edits := by
  obtain ⟨keyword, list, rest, pairs, hcommand, hkeyword, hpairs, hselector, pair, hpair,
    hname⟩ := h
  have hitems : ¬ (Text.items list).isEmpty = true := by
    rw [List.isEmpty_iff]
    exact List.ne_nil_of_mem hselector
  have hperform : c.perform keyword (list :: rest) = c.style (list :: rest) := by
    rcases hkeyword with rfl | rfl
    · rfl
    · rfl
  refine ⟨{ context := c
            edits := declareAll c.registry.active (Text.items list) (declarations pairs) },
    pair.2, ?_, ?_⟩
  · rw [plan_of_command? hcommand, hperform]
    simp only [style, if_neg hitems, hpairs]
  · have hdeclaration : (Text.camelCase name, pair.2) ∈ declarations pairs :=
      List.mem_flatMap.mpr ⟨pair, hpair, List.mem_map_of_mem hname⟩
    exact List.mem_flatMap.mpr ⟨_, hdeclaration, List.mem_map_of_mem hselector⟩

theorem Sheet.mem_propertiesAt_applyAll (sheet : Sheet) {edits : List Edit} {active : Collection}
    {selector property value : Text} (hselector : selector.IsItem) (hroute : active.route ≠ .font)
    (h : Edit.declare active selector property value ∈ edits) :
    property ∈ (sheet.applyAll edits).propertiesAt active.route active.name selector := by
  obtain ⟨before, after, rfl⟩ := List.append_of_mem h
  have hmade := (sheet.applyAll before).mem_propertiesAt_declare hselector hroute property value
  have hgrows := grows_applyAll
    ((sheet.applyAll before).apply (.declare active selector property value)) after
  rw [applyAll, List.foldl_append]
  exact (hgrows.propertiesAt active.route active.name selector).subset hmade

theorem State.mem_propertiesAt_interpret {file : Option Text} {s : State} {statement : Statement}
    {selector name : Text} (h : s.context.Declares statement.content selector name)
    (hroute : s.context.registry.active.route ≠ .font) :
    Text.camelCase name ∈ (s.interpret file statement).state.sheet.propertiesAt
      s.context.registry.active.route s.context.registry.active.name selector := by
  obtain ⟨plan, value, hplan, hedit⟩ := h.exists_edit
  obtain ⟨keyword, list, rest, pairs, -, -, -, hselector, -⟩ := h
  rw [State.interpret_eq, hplan]
  exact s.sheet.mem_propertiesAt_applyAll (Text.isItem_of_mem_items hselector) hroute hedit

/-- Some statement of a run declares the property under the selector, taking the route while the
    collection of the given name is active. -/
def Run.Declares (file : Option Text) (start : State) (statements : List Statement)
    (route : Route) (holder selector name : Text) : Prop :=
  ∃ visit ∈ Run.visits file start statements,
    visit.1.context.registry.active.route = route ∧
    visit.1.context.registry.active.name = holder ∧
    visit.1.context.Declares visit.2.content selector name

theorem Run.mem_propertiesAt_statements {file : Option Text} {start : State}
    {statements : List Statement} {route : Route} {holder selector name : Text}
    (hroute : route ≠ .font)
    (h : Run.Declares file start statements route holder selector name) :
    Text.camelCase name ∈
      (Run.statements file start statements).state.sheet.propertiesAt route holder selector := by
  obtain ⟨visit, hvisit, rfl, rfl, hdeclares⟩ := h
  -- up to the statement that declares nothing is known of the sheet; from there on it only grows
  induction statements generalizing start with
  | nil => cases hvisit
  | cons statement rest ih =>
    rcases List.mem_cons.mp hvisit with rfl | hlater
    · have hgrows := Run.grows_statements file (start.interpret file statement).state rest
      exact (hgrows.propertiesAt _ _ _).subset (State.mem_propertiesAt_interpret hdeclares hroute)
    · exact ih hlater

/-- **What becomes of authored properties.**  Suppose that statements of a run declare properties
    under a selector, all on one route that does not lead to a font.  Then at the end one block
    of the stylesheet shows the selector, with no property twice, and shows every property
    without capitals that was declared there, without the dashes that stand directly before a
    digit.  So a property comes out as it was authored exactly if it has no such dash, and two of
    them come out as one exactly if they differ in such dashes only. -/
theorem authored_names_rendered (file : Option Text) (modes : Modes) (statements : List Statement)
    (route : Route) (holder selector : Text) (hroute : route ≠ .font)
    (hdeclared : ∃ name,
      Run.Declares file { context := { modes } } statements route holder selector name) :
    let sheet := (Run.statements file { context := { modes } } statements).state.sheet
    sheet.render false = .ok sheet.css.write ∧
    (∃ block ∈ sheet.css.blocksAt route holder, block.head = selector ∧
      (Css.properties block.declarations).Nodup ∧
      ∀ name, (∀ c ∈ name, c.isUpper = false) →
        Run.Declares file { context := { modes } } statements route holder selector name →
        name.undashed ∈ Css.properties block.declarations) ∧
    ∀ name : Text, name.undashed = name ↔ ∀ d, ['-', d] <:+: name → d.isDigit = false := by
  intro sheet
  have hfilled : sheet.Filled := Run.filled_statements file modes statements
  have hkeyed : sheet.Keyed := Run.keyed_statements file modes statements
  refine ⟨if_pos hfilled.isDecided, ?_, fun name => Text.undashed_eq_self_iff⟩
  obtain ⟨first, hfirst⟩ := hdeclared
  obtain ⟨block, hblock, hhead, hproperties⟩ :=
    Sheet.exists_block (Run.mem_propertiesAt_statements hroute hfirst)
  refine ⟨block, hblock, hhead, ?_, ?_⟩
  · rw [hproperties]
    exact hkeyed.nodup_propertiesAt route holder selector
  · intro name hname hdeclares
    rw [hproperties, ← Text.kebabCase_camelCase hname]
    exact List.mem_map_of_mem (Run.mem_propertiesAt_statements hroute hdeclares)

/-- A vendor property and one of the author's own in a frame, in one comma list. -/
theorem authored_names_rendered_frame :
    let before : List Statement :=
      [{ content := ["#".toList, "k".toList] }, { content := ["!type".toList, "motion".toList] }]
    let statement : Statement :=
      { content := ["$".toList, "from".toList, "--a-b, -webkit-x".toList, "1".toList] }
    let sheet := (Run.statements none { context := { modes := {} } }
      (before ++ [statement])).state.sheet
    ∃ block ∈ sheet.css.blocksAt .motion "k".toList, block.head = "from".toList ∧
      "--a-b".toList ∈ Css.properties block.declarations ∧
      "-webkit-x".toList ∈ Css.properties block.declarations := by
  intro before statement sheet
  have hvisit : ((Run.statements none { context := { modes := {} } } before).state, statement) ∈
      Run.visits none { context := { modes := {} } } (before ++ [statement]) := by
    rw [Run.visits_append]
    exact List.mem_append_right _ List.mem_cons_self
  have hdeclares : ∀ name ∈ ["--a-b".toList, "-webkit-x".toList],
      Run.Declares none { context := { modes := {} } } (before ++ [statement]) .motion "k".toList
        "from".toList name := by
    intro name hname
    refine ⟨_, hvisit, by decide +kernel, by decide +kernel, .style, "from".toList,
      ["--a-b, -webkit-x".toList, "1".toList], [("--a-b, -webkit-x".toList, "1".toList)],
      by decide +kernel, Or.inl rfl, rfl, by decide +kernel, _, List.mem_cons_self, ?_⟩
    have hitems : Text.items "--a-b, -webkit-x".toList = ["--a-b".toList, "-webkit-x".toList] := by
      decide +kernel
    rw [hitems]
    exact hname
  obtain ⟨-, ⟨block, hblock, hhead, -, hnames⟩, -⟩ := authored_names_rendered none {}
    (before ++ [statement]) .motion "k".toList "from".toList (by decide)
    ⟨_, hdeclares _ List.mem_cons_self⟩
  refine ⟨block, hblock, hhead, ?_, ?_⟩
  · exact hnames "--a-b".toList (by simp) (hdeclares _ List.mem_cons_self)
  · exact hnames "-webkit-x".toList (by simp)
      (hdeclares _ (List.mem_cons_of_mem _ List.mem_cons_self))

/-- A dash before a digit is lost, and two properties that differ in it become one. -/
theorem authored_names_merged :
    (Compilation.ofSource {} "$ .a --gap-2 1px gap-2 1px gap2 2px".toList).map Compilation.css =
      .ok ".a\x7b--gap2:1px;gap2:2px;\x7d".toList := by
  decide +kernel

end Dyehouse
