import Dyehouse.Proofs.Lines
import Dyehouse.Proofs.Lookup

/-!
# Variables that are not asked for

A program whose tokens never refer to a variable cannot tell what the variable is bound to, or
whether it is bound at all.  Values may hold text that looks like a reference, but they are put in
place of references once and never evaluated again.

Two states that differ in the bindings of `x` alone are states that are equal once `x` is
forgotten, so "they differ in nothing else" is an equation (`State.forget`), and the two runs are
compared by carrying it along.  There is one place where a binding of `x` could get in by a side
door: whether a collection is loaded is asked by comparing all that it holds.  In a sound registry
that question is about names, and forgetting keeps a registry sound.
-/

namespace Dyehouse

/-! ### Forgetting a variable -/

/-- The collection without any binding of `x`. -/
def Collection.forget (x : Text) (c : Collection) : Collection :=
  { c with values := c.values.erase x, defaults := c.defaults.erase x }

/-- The registry without any binding of `x` in any collection. -/
def Registry.forget (x : Text) (r : Registry) : Registry :=
  { r with collections := r.collections.map (Collection.forget x) }

def Context.forget (x : Text) (c : Context) : Context :=
  c.withRegistry (Registry.forget x)

def State.forget (x : Text) (s : State) : State :=
  s.withRegistry (Registry.forget x)

/-- Whether a token refers to `x`, in whatever collection: it starts with a reference, and what
    follows the last slash of its name is `x`. -/
def Reference.refersTo (x token : Text) : Bool :=
  match ofToken? token with
  | some r => (r.name.splitOn '/').getLast? = some x
  | none => false

variable {x : Text}

namespace Collection

theorem explicit?_forget (c : Collection) {key : Text} (h : key ≠ x) :
    (c.forget x).explicit? key = c.explicit? key :=
  Table.get?_erase_of_ne c.values h

theorem default?_forget (c : Collection) {key : Text} (h : key ≠ x) :
    (c.forget x).default? key = c.default? key :=
  Table.get?_erase_of_ne c.defaults h

theorem resolve?_forget (c : Collection) {key : Text} (h : key ≠ x) :
    (c.forget x).resolve? key = c.resolve? key := by
  rw [resolve?, resolve?, explicit?_forget c h, default?_forget c h]

@[simp] theorem forget_named (name : Text) : (named name).forget x = named name := by
  simp [forget, named]

theorem Sound.forget {name : Text} {c : Collection} (h : c.Sound name) :
    (c.forget x).Sound name where
  name_eq := h.name_eq
  nodup_values := Table.nodup_names_erase h.nodup_values x
  nodup_defaults := Table.nodup_names_erase h.nodup_defaults x

/-- What a write leaves behind does not depend on what is forgotten. -/
theorem forget_write (c : Collection) (w : Write) :
    (c.write w).forget x = ((c.forget x).write w).forget x := by
  cases w with
  | value key value =>
    by_cases h : key = x
    · simp [write, assign, forget, h, Table.insert, Table.erase_alter_self]
    · simp [write, assign, forget, Table.insert, Table.erase_alter_of_ne _ h]
  | fallback key value =>
    by_cases h : key = x
    · simp [write, assignDefault, forget, h, Table.insert, Table.erase_alter_self]
    · simp [write, assignDefault, forget, Table.insert, Table.erase_alter_of_ne _ h]
  | tag tag => simp [write, retag, forget]

end Collection

namespace Registry

variable {r q : Registry}

theorem content_forget (r : Registry) (name : Text) :
    (r.forget x).content name = (r.content name).forget x := by
  simp only [content, forget, Table.get?_map]
  cases r.collections.get? name with
  | none => simp
  | some c => rfl

theorem Sound.forget (h : r.Sound) : (r.forget x).Sound where
  content_sound := by
    intro name
    rw [content_forget]
    exact (h.content_sound name).forget
  nodup_names := by
    rw [Registry.forget, Table.names_map]
    exact h.nodup_names
  root_first := by
    rw [Registry.forget, Table.names_map]
    exact h.root_first
  root_eq := h.root_eq
  active_mem := by
    rw [Registry.forget, Table.names_map]
    exact h.active_mem
  loaded_mem := by
    intro name hname
    rw [Registry.forget, Table.names_map]
    exact h.loaded_mem name hname
  nodup_loaded := h.nodup_loaded
  active_not_loaded := h.active_not_loaded

/-! ### Steps -/

theorem forget_update (r : Registry) (name : Text) {f g : Collection → Collection}
    (h : ∀ c : Collection, (f c).forget x = g (c.forget x)) :
    (r.update name f).forget x = (r.forget x).update name g := by
  have halter : (r.collections.alter name fun c => f (c.getD (.named name))).map
      (Collection.forget x) =
      (r.collections.map (Collection.forget x)).alter name fun c => g (c.getD (.named name)) := by
    refine Table.map_alter ?_ r.collections name
    intro c
    rw [h]
    cases c <;> simp
  simp only [update, forget, halter]

theorem forget_ensure (r : Registry) (name : Text) :
    (r.ensure name).forget x = (r.forget x).ensure name :=
  forget_update r name fun _ => rfl

theorem forget_activate (r : Registry) (name : Text) :
    (r.activate name).forget x = (r.forget x).activate name := by
  have hensure := forget_ensure (x := x) r name
  change { (r.ensure name).forget x with
    scope := { r.scope with active := name, loaded := [] } } = _
  rw [hensure]
  rfl

/-- Whether a collection is loaded is a question about names, so forgetting does not change the
    answer. -/
theorem forget_load (h : r.Sound) (name : Text) :
    (r.load name).forget x = (r.forget x).load name := by
  have hensure := forget_ensure (x := x) r name
  have hscope : (r.forget x).scope = r.scope := rfl
  rw [h.load_eq, h.forget.load_eq, hscope]
  split
  · exact hensure
  · rw [← hensure]
    rfl

theorem forget_loadAll (h : r.Sound) (names : List Text) :
    (r.loadAll names).forget x = (r.forget x).loadAll names := by
  induction names generalizing r with
  | nil => rfl
  | cons name rest ih =>
    have hrest := ih (h.load name)
    rw [forget_load h] at hrest
    exact hrest

theorem forget_eq_iff :
    r.forget x = q.forget x ↔ r.scope = q.scope ∧
      (r.collections.entries.map fun entry => (entry.1, entry.2.forget x)) =
        q.collections.entries.map fun entry => (entry.1, entry.2.forget x) := by
  rw [← Table.entries_map, ← Table.entries_map, ← Table.ext_iff]
  simp only [forget, mk.injEq]
  exact And.comm

/-- **Registries that differ in `x` alone still do after the same step.** -/
theorem forget_take_congr (hr : r.Sound) (hq : q.Sound) (h : r.forget x = q.forget x)
    (step : Step) : (r.take step).forget x = (q.take step).forget x := by
  cases step with
  | collection name =>
    change (r.ensure name).forget x = (q.ensure name).forget x
    rw [forget_ensure, forget_ensure, h]
  | activate name =>
    change (r.activate name).forget x = (q.activate name).forget x
    rw [forget_activate, forget_activate, h]
  | load names =>
    change (r.loadAll names).forget x = (q.loadAll names).forget x
    rw [forget_loadAll hr, forget_loadAll hq, h]
  | write holder w =>
    have hscope := (forget_eq_iff.mp h).1
    have hwrite : ∀ (p : Registry) (name : Text), (p.update name fun c => c.write w).forget x =
        (p.forget x).update name fun c => (c.write w).forget x :=
      fun p name => forget_update p name fun c => c.forget_write w
    rw [take, take, hscope, hwrite, hwrite, h]

theorem forget_foldl_take_congr (hr : r.Sound) (hq : q.Sound) (h : r.forget x = q.forget x)
    (steps : List Step) :
    (steps.foldl take r).forget x = (steps.foldl take q).forget x := by
  induction steps generalizing r q with
  | nil => exact h
  | cons step rest ih => exact ih (hr.take step) (hq.take step) (forget_take_congr hr hq h step)

/-! ### Looking up -/

theorem chain_forget (h : r.Sound) :
    (r.forget x).scope.chain (r.forget x).content = r.scope.chain r.content := by
  unfold Scope.chain
  rw [h.ancestors_eq, h.forget.ancestors_eq]
  rfl

/-- A name that does not end in `x` has the value that it has without `x`. -/
theorem get?_forget (h : r.Sound) {name : Text}
    (hname : (name.splitOn '/').getLast? ≠ some x) :
    (r.forget x).get? name = r.get? name := by
  unfold get?
  cases hsplit : Text.splitLast '/' name with
  | some cut =>
    obtain ⟨collection, key⟩ := cut
    obtain ⟨rfl, hkey⟩ := Text.splitLast_eq_some_iff.mp hsplit
    have hne : key ≠ x := by
      intro heq
      apply hname
      rw [List.splitOn_append_cons_self, List.splitOn_eq_singleton hkey, List.getLast?_concat, heq]
    simp only [forget, Table.get?_map]
    cases r.collections.get? collection with
    | none => rfl
    | some c => exact c.resolve?_forget hne
  | none =>
    have hslash := Text.not_mem_of_splitLast_eq_none hsplit
    have hne : name ≠ x := by
      intro heq
      apply hname
      rw [List.splitOn_eq_singleton hslash, List.getLast?_singleton, heq]
    simp only [Scope.get?, chain_forget h, content_forget, Collection.explicit?_forget _ hne,
      Collection.default?_forget _ hne]

end Registry

/-! ### Statements -/

namespace Context

theorem evaluate_forget {c : Context} (h : c.registry.Sound) {token : Text}
    (htoken : Reference.refersTo x token = false) :
    (c.forget x).evaluate token = c.evaluate token := by
  unfold evaluate
  unfold Reference.refersTo at htoken
  cases href : Reference.ofToken? token with
  | none => rfl
  | some r =>
    simp only [href, decide_eq_false_iff_not] at htoken
    have hget : (c.forget x).registry.get? r.name = c.registry.get? r.name :=
      Registry.get?_forget h htoken
    simp only [hget]
    rfl

theorem evaluateAll_forget {c : Context} (h : c.registry.Sound) {tokens : List Text}
    (htokens : ∀ token ∈ tokens, Reference.refersTo x token = false) :
    (c.forget x).evaluateAll tokens = c.evaluateAll tokens := by
  induction tokens with
  | nil => rfl
  | cons token rest ih =>
    rw [List.forall_mem_cons] at htokens
    rw [evaluateAll, evaluateAll, evaluate_forget h htokens.1, ih htokens.2]

end Context

/-- What a plan says apart from what becomes of the registry. -/
def Plan.outline (plan : Plan) : Modes × List Edit × List Remark :=
  (plan.context.modes, plan.edits, plan.remarks)

section Outlines

variable {c d : Context}

theorem declareAll_congr {a b : Collection} (hname : a.name = b.name) (hroute : a.route = b.route)
    (selectors : List Text) (declarations : List (Text × Text)) :
    declareAll a selectors declarations = declareAll b selectors declarations := by
  simp only [declareAll, Edit.declare, hname, hroute]

/-- Of the registry, a keyword looks at the name and the route of the active collection alone. -/
theorem Context.outline_perform (hmodes : c.modes = d.modes)
    (hname : c.registry.active.name = d.registry.active.name)
    (hroute : c.registry.active.route = d.registry.active.route) (keyword : Keyword)
    (words : List Text) :
    (c.perform keyword words).map Plan.outline = (d.perform keyword words).map Plan.outline := by
  have hstyle : (c.style words).map Plan.outline = (d.style words).map Plan.outline := by
    cases words with
    | nil => rfl
    | cons list rest =>
      simp only [style, declareAll_congr hname hroute]
      split
      · rfl
      · cases pairUp rest <;> simp [Except.map, Plan.outline, hmodes]
  cases keyword with
  | assign =>
    simp only [perform, assign]
    cases pairUp words with
    | error last => rfl
    | ok pairs =>
      dsimp only
      cases pairs.find? fun pair => !Name.isValid pair.1 <;>
        simp [Except.map, Plan.outline, withRegistry, hmodes]
  | assignDefault =>
    simp only [perform, assignDefaults]
    cases pairUp words <;> simp [Except.map, Plan.outline, withRegistry, hmodes]
  | enter => cases words <;> simp [perform, enter, Except.map, Plan.outline, withRegistry, hmodes]
  | style => exact hstyle
  | classStyle => exact hstyle
  | importModule => rfl
  | exposeTo => rfl
  | exportTo => rfl
  | retag => simp [perform, retag, Except.map, Plan.outline, withRegistry, hmodes]
  | dyegest => simp [perform, Except.map, Plan.outline, enableStrict, enableDyegest]
  | version => simp [perform, checkVersion, Except.map, Plan.outline, hmodes]

theorem Context.outline_plan (hmodes : c.modes = d.modes)
    (hname : c.registry.active.name = d.registry.active.name)
    (hroute : c.registry.active.route = d.registry.active.route) {content : List Text}
    (hvalues : c.evaluateAll content = d.evaluateAll content) :
    (c.plan content).map Plan.outline = (d.plan content).map Plan.outline := by
  unfold plan
  rw [hvalues]
  cases d.evaluateAll content with
  | error fault => rfl
  | ok values =>
    cases values with
    | nil => simp [Except.map, Plan.outline, hmodes]
    | cons query words =>
      simp only [dispatch, hmodes]
      cases ClassQuery.ofToken? query with
      | some name => simp [Except.map, Plan.outline, applyClass, hmodes]
      | none =>
        cases Keyword.ofToken? query with
        | some keyword => exact outline_perform hmodes hname hroute keyword words
        | none =>
          dsimp only
          split
          · rfl
          · simp [Except.map, Plan.outline, hmodes]

end Outlines

namespace State

variable {s t : State}

theorem forget_eq_iff :
    s.forget x = t.forget x ↔
      s.context.registry.forget x = t.context.registry.forget x ∧
        s.context.modes = t.context.modes ∧ s.sheet = t.sheet := by
  obtain ⟨⟨r, m⟩, sheet⟩ := s
  obtain ⟨⟨r', m'⟩, sheet'⟩ := t
  simp [forget, withRegistry, Context.withRegistry, and_assoc]

theorem evaluateAll_congr (hs : s.context.registry.Sound) (ht : t.context.registry.Sound)
    (h : s.forget x = t.forget x) {tokens : List Text}
    (htokens : ∀ token ∈ tokens, Reference.refersTo x token = false) :
    s.context.evaluateAll tokens = t.context.evaluateAll tokens := by
  calc s.context.evaluateAll tokens
      = (s.forget x).context.evaluateAll tokens := (Context.evaluateAll_forget hs htokens).symm
    _ = (t.forget x).context.evaluateAll tokens := by rw [h]
    _ = t.context.evaluateAll tokens := Context.evaluateAll_forget ht htokens

theorem outline_congr (hs : s.context.registry.Sound) (ht : t.context.registry.Sound)
    (h : s.forget x = t.forget x) {content : List Text}
    (hcontent : ∀ token ∈ content, Reference.refersTo x token = false) :
    (s.context.plan content).map Plan.outline = (t.context.plan content).map Plan.outline := by
  obtain ⟨hregistry, hmodes, -⟩ := forget_eq_iff.mp h
  have hactive : s.context.registry.active.forget x = t.context.registry.active.forget x := by
    have hscope := (Registry.forget_eq_iff.mp hregistry).1
    rw [Registry.active, Registry.active, ← Registry.content_forget, ← Registry.content_forget,
      hregistry, hscope]
  have hname := congrArg Collection.name hactive
  have hroute := congrArg Collection.route hactive
  exact Context.outline_plan hmodes hname hroute (evaluateAll_congr hs ht h hcontent)

/-- The modes, the sheet and what is heard of a statement follow from the outline of its plan. -/
theorem interpret_eq_of_outline (file : Option Text) {statement : Statement}
    (houtline : (s.context.plan statement.content).map Plan.outline =
      (t.context.plan statement.content).map Plan.outline)
    (hmodes : s.context.modes = t.context.modes) (hsheet : s.sheet = t.sheet) :
    (s.interpret file statement).state.context.modes =
        (t.interpret file statement).state.context.modes ∧
      (s.interpret file statement).state.sheet = (t.interpret file statement).state.sheet ∧
      (s.interpret file statement).events = (t.interpret file statement).events := by
  rw [interpret_eq, interpret_eq]
  cases hs : s.context.plan statement.content with
  | error fault =>
    cases ht : t.context.plan statement.content with
    | error other =>
      rw [hs, ht] at houtline
      cases houtline
      exact ⟨hmodes, hsheet, rfl⟩
    | ok plan =>
      rw [hs, ht] at houtline
      cases houtline
  | ok plan =>
    cases ht : t.context.plan statement.content with
    | error fault =>
      rw [hs, ht] at houtline
      cases houtline
    | ok other =>
      rw [hs, ht] at houtline
      simp only [Except.map, Plan.outline, Except.ok.injEq, Prod.mk.injEq] at houtline
      obtain ⟨hcontext, hedits, hremarks⟩ := houtline
      simp only [follow, remarks, hcontext, hedits, hremarks, hsheet, and_self]

/-- **A statement that does not ask for `x` cannot tell.** -/
theorem interpret_congr (hs : s.context.registry.Sound) (ht : t.context.registry.Sound)
    (h : s.forget x = t.forget x) (file : Option Text) {statement : Statement}
    (hstatement : ∀ token ∈ statement.content, Reference.refersTo x token = false) :
    (s.interpret file statement).state.forget x = (t.interpret file statement).state.forget x ∧
      (s.interpret file statement).events = (t.interpret file statement).events := by
  obtain ⟨hregistry, hmodes, hsheet⟩ := forget_eq_iff.mp h
  have hsteps : s.context.steps statement.content = t.context.steps statement.content := by
    simp only [Context.steps, Context.command?, evaluateAll_congr hs ht h hstatement]
  have hregistries : (s.interpret file statement).state.context.registry.forget x =
      (t.interpret file statement).state.context.registry.forget x := by
    rw [registry_interpret, registry_interpret, hsteps]
    exact Registry.forget_foldl_take_congr hs ht hregistry _
  obtain ⟨hnext, hsheets, hevents⟩ :=
    interpret_eq_of_outline file (outline_congr hs ht h hstatement) hmodes hsheet
  exact ⟨forget_eq_iff.mpr ⟨hregistries, hnext, hsheets⟩, hevents⟩

end State

/-- **Runs that do not ask for `x` go in step.** -/
theorem Run.forget_statements_congr {s t : State} (hs : s.Reachable) (ht : t.Reachable)
    (h : s.forget x = t.forget x) (file : Option Text) {statements : List Statement}
    (hstatements : ∀ statement ∈ statements, ∀ token ∈ statement.content,
      Reference.refersTo x token = false) :
    (Run.statements file s statements).state.forget x =
        (Run.statements file t statements).state.forget x ∧
      (Run.statements file s statements).events = (Run.statements file t statements).events := by
  induction statements generalizing s t with
  | nil => exact ⟨h, rfl⟩
  | cons statement rest ih =>
    rw [List.forall_mem_cons] at hstatements
    obtain ⟨hstep, hheard⟩ := State.interpret_congr hs.sound ht.sound h file hstatements.1
    obtain ⟨hend, hlater⟩ :=
      ih (hs.interpret file statement) (ht.interpret file statement) hstep hstatements.2
    refine ⟨hend, ?_⟩
    simp only [Run.statements, hheard, hlater]

/-- **A program reads only the variables that its tokens name.**  If two states are equal but for
    bindings of `x`, of either kind and in any collections, then statements in which no token
    refers to `x` run alike from both: they end with the same sheet, modes, active collection and
    loaded collections, add the same diagnostics, and leave states that are again equal but for
    bindings of `x`. -/
theorem Run.reads_only_named_variables (x : Text) (s t : State) (hs : s.Reachable)
    (ht : t.Reachable) (h : s.forget x = t.forget x) (file : Option Text)
    (statements : List Statement)
    (hstatements : ∀ statement ∈ statements, ∀ token ∈ statement.content,
      Reference.refersTo x token = false) :
    let one := Run.statements file s statements
    let other := Run.statements file t statements
    one.state.sheet = other.state.sheet ∧
    one.events = other.events ∧
    one.log = other.log ∧
    one.state.context.modes = other.state.context.modes ∧
    one.state.context.registry.scope = other.state.context.registry.scope ∧
    one.state.context.registry.collections.names =
      other.state.context.registry.collections.names ∧
    (∀ name, (one.state.context.registry.content name).forget x =
      (other.state.context.registry.content name).forget x) ∧
    one.state.forget x = other.state.forget x := by
  intro one other
  obtain ⟨hend, hevents⟩ := Run.forget_statements_congr hs ht h file hstatements
  obtain ⟨hregistry, hmodes, hsheet⟩ := State.forget_eq_iff.mp hend
  refine ⟨hsheet, hevents, congrArg Event.log hevents, hmodes,
    (Registry.forget_eq_iff.mp hregistry).1, ?_, ?_, hend⟩
  · have hnames := congrArg (fun r : Registry => r.collections.names) hregistry
    simpa only [Registry.forget, Table.names_map] using hnames
  · intro name
    rw [← Registry.content_forget, ← Registry.content_forget, hregistry]

/-- In one state `x` has a value before `y` and another collection a default for it, in the other
    there is no `x` at all.  Statements that bind `x`, and that write values with `&x` in them,
    leave the same sheet and the same diagnostics. -/
theorem Run.reads_only_named_variables_unbound :
    let x := "x".toList
    let bound : List Statement :=
      [{ content := ["@".toList, x, "1".toList, "y".toList, "2".toList] },
       { content := ["#".toList, "card".toList] },
       { content := ["!@".toList, x, "3".toList] },
       { content := ["#".toList, "page".toList, "card".toList] }]
    let unbound : List Statement :=
      [{ content := ["@".toList, "y".toList, "2".toList] },
       { content := ["#".toList, "card".toList] },
       { content := ["#".toList, "page".toList, "card".toList] }]
    let start : State := { context := { modes := { strict := true } } }
    let s := (Run.statements none start bound).state
    let t := (Run.statements none start unbound).state
    let statements : List Statement :=
      [{ content := ["@".toList, "z".toList, "-&x".toList, x, "5".toList] },
       { content := ["#".toList, "page".toList, "card".toList, "card".toList] },
       { content := ["$".toList, ".a".toList, "top".toList, "&y".toList, "left".toList,
           "&page/z&x".toList, "right".toList, "&x2".toList] },
       { content := ["$".toList, ".a".toList, "top".toList, "&y".toList, "left".toList,
           "&page/z&x".toList] }]
    let one := Run.statements none s statements
    let other := Run.statements none t statements
    s.Reachable ∧ t.Reachable ∧ s ≠ t ∧ s.forget x = t.forget x ∧
      (∀ statement ∈ statements, ∀ token ∈ statement.content,
        Reference.refersTo x token = false) ∧
      one.log ≠ [] ∧ one.log = other.log ∧
      one.state.sheet.styles.names = [".a".toList] ∧ one.state.sheet = other.state.sheet ∧
      one.state.forget x = other.state.forget x := by
  intro x bound unbound start s t statements one other
  have hs : s.Reachable := (State.Reachable.start true).statements none bound
  have ht : t.Reachable := (State.Reachable.start true).statements none unbound
  have hne : s ≠ t := by decide +kernel
  have hforget : s.forget x = t.forget x :=
    State.forget_eq_iff.mpr ⟨Registry.forget_eq_iff.mpr ⟨by decide +kernel, by decide +kernel⟩,
      by decide +kernel, by decide +kernel⟩
  have hfree : ∀ statement ∈ statements, ∀ token ∈ statement.content,
      Reference.refersTo x token = false := by decide +kernel
  have hlog : one.log ≠ [] := by decide +kernel
  have hnames : one.state.sheet.styles.names = [".a".toList] := by decide +kernel
  clear_value s t
  obtain ⟨hsheet, -, hlogs, -, -, -, -, hend⟩ :=
    Run.reads_only_named_variables x s t hs ht hforget none statements hfree
  exact ⟨hs, ht, hne, hforget, hfree, hlog, hlogs, hnames, hsheet, hend⟩

end Dyehouse
