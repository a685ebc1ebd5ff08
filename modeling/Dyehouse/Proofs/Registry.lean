import Dyehouse.Proofs.Run
import Dyehouse.Proofs.Table

/-!
# The registry invariant

Collections are told apart by name, but whether one is loaded already is asked by comparing
what it holds with what the loaded ones hold.  The two questions have one answer because
every collection is kept under its own name, and that has to be carried through everything
that can happen to a registry.

What can happen is said once, as a `Step`.  `Registry.Sound` holds at the start and every
step keeps it, so it holds after every run of steps; `Run.registry_statements` says that the
registry of a compilation is always the outcome of such a run.
-/

namespace Dyehouse

/-! ### Collections -/

/-- A collection that goes by its name and binds no variable twice. -/
structure Collection.Sound (name : Text) (c : Collection) : Prop where
  name_eq : c.name = name
  nodup_values : c.values.names.Nodup
  nodup_defaults : c.defaults.names.Nodup

namespace Collection

theorem Sound.agrees_self {name : Text} {c : Collection} (h : c.Sound name) :
    c.agrees c = true := by
  simp [agrees, Table.agrees_self h.nodup_values, Table.agrees_self h.nodup_defaults]

theorem Sound.eq_of_agrees {name other : Text} {c d : Collection} (hc : c.Sound name)
    (hd : d.Sound other) (hagrees : c.agrees d = true) : name = other := by
  simp only [agrees, Bool.and_eq_true, beq_iff_eq] at hagrees
  rw [← hc.name_eq, ← hd.name_eq]
  exact hagrees.1.1.1

theorem sound_named (name : Text) : (named name).Sound name where
  name_eq := rfl
  nodup_values := List.nodup_nil
  nodup_defaults := List.nodup_nil

inductive Write where
  | value (key value : Text)
  | fallback (key value : Text)
  | tag (tag : Text)
  deriving DecidableEq, Repr

def write (c : Collection) : Write → Collection
  | .value key value => c.assign key value
  | .fallback key value => c.assignDefault key value
  | .tag tag => c.retag tag

theorem Sound.write {name : Text} {c : Collection} (h : c.Sound name) (w : Write) :
    (c.write w).Sound name := by
  cases w with
  | value key value =>
    exact ⟨h.name_eq, Table.nodup_names_alter h.nodup_values _ _, h.nodup_defaults⟩
  | fallback key value =>
    exact ⟨h.name_eq, h.nodup_values, Table.nodup_names_alter h.nodup_defaults _ _⟩
  | tag tag => exact ⟨h.name_eq, h.nodup_values, h.nodup_defaults⟩

end Collection

namespace Registry

/-! ### What can happen to a registry -/

inductive Step where
  /-- Name a collection, which makes it if it is not there. -/
  | collection (name : Text)
  /-- Make a collection the active one. -/
  | activate (name : Text)
  /-- Load collections beneath the active one. -/
  | load (names : List Text)
  /-- Change the collection of the given name, or the active one if no name is given. -/
  | write (holder : Option Text) (w : Collection.Write)
  deriving DecidableEq, Repr

def take (r : Registry) : Step → Registry
  | .collection name => r.ensure name
  | .activate name => r.activate name
  | .load names => r.loadAll names
  | .write holder w => r.update (holder.getD r.scope.active) fun c => c.write w

/-- The registry after steps, from the one that every compilation starts with. -/
def after (steps : List Step) : Registry :=
  steps.foldl take {}

theorem content_update (r : Registry) (name other : Text) (f : Collection → Collection) :
    (r.update name f).content other =
      if other = name then f (r.content name) else r.content other := by
  unfold update content
  rw [Table.get?_alter]
  by_cases h : other = name
  · simp [h]
  · simp [h]

theorem names_update (r : Registry) (name : Text) (f : Collection → Collection) :
    (r.update name f).collections.names =
      if name ∈ r.collections.names then r.collections.names
      else r.collections.names ++ [name] :=
  Table.names_alter r.collections name _

theorem mem_names_update (r : Registry) (name : Text) (f : Collection → Collection) :
    name ∈ (r.update name f).collections.names := by
  rw [names_update]
  by_cases h : name ∈ r.collections.names
  · rwa [if_pos h]
  · rw [if_neg h]
    exact List.mem_append_right _ (List.mem_singleton.mpr rfl)

theorem mem_names_update_of_mem {r : Registry} {other : Text} (name : Text)
    (f : Collection → Collection) (h : other ∈ r.collections.names) :
    other ∈ (r.update name f).collections.names := by
  rw [names_update]
  split
  · exact h
  · exact List.mem_append_left _ h

/-! ### The invariant -/

/-- Every collection is kept under its own name, `root` came first, and the scope refers to
    collections that are there, to each of them at most once. -/
structure Sound (r : Registry) : Prop where
  content_sound : ∀ name, (r.content name).Sound name
  nodup_names : r.collections.names.Nodup
  root_first : r.collections.names.head? = some rootName
  root_eq : r.scope.root = some rootName
  active_mem : r.scope.active ∈ r.collections.names
  loaded_mem : ∀ name ∈ r.scope.loaded, name ∈ r.collections.names
  nodup_loaded : r.scope.loaded.Nodup
  active_not_loaded : r.scope.active ∉ r.scope.loaded

theorem sound_start : Sound {} where
  content_sound := by
    intro name
    have hcontent : ({} : Registry).content name = .named name := by
      unfold content
      rw [Table.get?_insert]
      by_cases h : name = rootName
      · simp [h]
      · simp [h]
    rw [hcontent]
    exact Collection.sound_named name
  nodup_names := by decide
  root_first := by decide
  root_eq := rfl
  active_mem := by decide
  loaded_mem := by simp
  nodup_loaded := List.nodup_nil
  active_not_loaded := by simp

namespace Sound

variable {r : Registry}

/-- Asking whether something that holds the same is loaded is asking whether the collection
    itself is. -/
theorem hasLoaded_iff (h : r.Sound) (name : Text) :
    r.scope.hasLoaded r.content name = true ↔ name ∈ r.scope.loaded := by
  unfold Scope.hasLoaded
  rw [List.any_eq_true]
  constructor
  · rintro ⟨other, hmem, hagrees⟩
    have hname := (h.content_sound other).eq_of_agrees (h.content_sound name) hagrees
    exact hname ▸ hmem
  · intro hmem
    exact ⟨name, hmem, (h.content_sound name).agrees_self⟩

theorem update (h : r.Sound) (name : Text) {f : Collection → Collection}
    (hf : ∀ c : Collection, c.Sound name → (f c).Sound name) : (r.update name f).Sound where
  content_sound := by
    intro other
    rw [content_update]
    by_cases hname : other = name
    · rw [if_pos hname, hname]
      exact hf _ (h.content_sound name)
    · rw [if_neg hname]
      exact h.content_sound other
  nodup_names := Table.nodup_names_alter h.nodup_names _ _
  root_first := by
    rw [names_update]
    split
    · exact h.root_first
    · rw [List.head?_append, h.root_first]
      rfl
  root_eq := h.root_eq
  active_mem := mem_names_update_of_mem name f h.active_mem
  loaded_mem := fun other hmem => mem_names_update_of_mem name f (h.loaded_mem other hmem)
  nodup_loaded := h.nodup_loaded
  active_not_loaded := h.active_not_loaded

theorem ensure (h : r.Sound) (name : Text) : (r.ensure name).Sound :=
  h.update name fun _ hc => hc

theorem activate (h : r.Sound) (name : Text) : (r.activate name).Sound := by
  have he := h.ensure name
  exact
    { content_sound := he.content_sound
      nodup_names := he.nodup_names
      root_first := he.root_first
      root_eq := he.root_eq
      active_mem := mem_names_update r name id
      loaded_mem := by simp [Registry.activate]
      nodup_loaded := List.nodup_nil
      active_not_loaded := by simp [Registry.activate] }

/-- Loading leaves out the active collection and what is loaded already, and nothing else. -/
theorem load_eq (h : r.Sound) (name : Text) :
    r.load name =
      if name = r.scope.active ∨ name ∈ r.scope.loaded then r.ensure name
      else { r.ensure name with
        scope := { r.scope with loaded := r.scope.loaded ++ [name] } } := by
  have hloaded := (h.ensure name).hasLoaded_iff name
  have hscope : (r.ensure name).scope = r.scope := rfl
  rw [hscope] at hloaded
  unfold load Scope.load
  simp only [hscope, hloaded]
  split
  · rfl
  · rfl

theorem load (h : r.Sound) (name : Text) : (r.load name).Sound := by
  have he := h.ensure name
  rw [h.load_eq name]
  split
  · exact he
  · next hnew =>
    rw [not_or] at hnew
    exact
      { content_sound := he.content_sound
        nodup_names := he.nodup_names
        root_first := he.root_first
        root_eq := he.root_eq
        active_mem := he.active_mem
        loaded_mem := by
          intro other hmem
          rcases List.mem_append.mp hmem with hold | hlast
          · exact he.loaded_mem other hold
          · rw [List.mem_singleton.mp hlast]
            exact mem_names_update r name id
        nodup_loaded := by
          refine List.nodup_append.mpr ⟨h.nodup_loaded, by simp, ?_⟩
          intro a ha b hb hab
          rw [List.mem_singleton.mp hb] at hab
          exact hnew.2 (hab ▸ ha)
        active_not_loaded := by
          intro hmem
          rcases List.mem_append.mp hmem with hold | hlast
          · exact h.active_not_loaded hold
          · exact hnew.1 (List.mem_singleton.mp hlast).symm }

theorem loadAll (h : r.Sound) (names : List Text) : (r.loadAll names).Sound := by
  induction names generalizing r with
  | nil => exact h
  | cons name rest ih => exact ih (h.load name)

theorem take (h : r.Sound) (step : Step) : (r.take step).Sound := by
  cases step with
  | collection name => exact h.ensure name
  | activate name => exact h.activate name
  | load names => exact h.loadAll names
  | write holder w => exact h.update _ fun _ hc => hc.write w

theorem foldl_take (h : r.Sound) (steps : List Step) : (steps.foldl Registry.take r).Sound := by
  induction steps generalizing r with
  | nil => exact h
  | cons step rest ih => exact ih (h.take step)

theorem content_of_mem (h : r.Sound) {name : Text} {c : Collection}
    (hmem : (name, c) ∈ r.collections.entries) : r.content name = c := by
  rw [content, (Table.get?_eq_some_iff h.nodup_names).mpr hmem]
  rfl

theorem mem_entries (h : r.Sound) {name : Text} (hmem : name ∈ r.collections.names) :
    (name, r.content name) ∈ r.collections.entries := by
  obtain ⟨c, hc⟩ := Table.mem_names_iff.mp hmem
  have hentry := (Table.get?_eq_some_iff h.nodup_names).mp hc
  rwa [h.content_of_mem hentry]

/-! ### The chain -/

/-- Where the root has not been met before, it is the last ancestor. -/
theorem ancestors_eq (h : r.Sound) :
    r.scope.ancestors r.content =
      if rootName ∈ r.scope.active :: r.scope.loaded then [] else [rootName] := by
  have hloaded := h.hasLoaded_iff rootName
  simp only [Scope.ancestors, h.root_eq, hloaded, List.mem_cons]

theorem nodup_chain (h : r.Sound) : (r.scope.chain r.content).Nodup := by
  unfold Scope.chain
  rw [← List.cons_append]
  refine List.nodup_append.mpr
    ⟨List.nodup_cons.mpr ⟨h.active_not_loaded, h.nodup_loaded⟩, ?_, ?_⟩
  · rw [h.ancestors_eq]
    split
    · exact List.nodup_nil
    · simp
  · intro a ha b hb hab
    rw [h.ancestors_eq] at hb
    split at hb
    · cases hb
    · next hnew =>
      rw [List.mem_singleton.mp hb] at hab
      exact hnew (hab ▸ ha)

theorem root_mem_chain (h : r.Sound) : rootName ∈ r.scope.chain r.content := by
  unfold Scope.chain
  rw [← List.cons_append, h.ancestors_eq]
  by_cases hseen : rootName ∈ r.scope.active :: r.scope.loaded
  · exact List.mem_append_left _ hseen
  · rw [if_neg hseen]
    exact List.mem_append_right _ (List.mem_singleton.mpr rfl)

theorem getLast?_chain (h : r.Sound) (hactive : rootName ≠ r.scope.active)
    (hloaded : rootName ∉ r.scope.loaded) :
    (r.scope.chain r.content).getLast? = some rootName := by
  have hnew : rootName ∉ r.scope.active :: r.scope.loaded := by
    rw [List.mem_cons, not_or]
    exact ⟨hactive, hloaded⟩
  unfold Scope.chain
  rw [← List.cons_append, h.ancestors_eq, if_neg hnew]
  exact List.getLast?_concat

end Sound

end Registry

/-! ### Statements as steps -/

/-- The steps of the registry that a keyword takes with the words that follow it. -/
def Keyword.steps (keyword : Keyword) (words : List Text) : List Registry.Step :=
  match keyword with
  | .assign =>
    match pairUp words with
    | .error _ => []
    | .ok pairs =>
      match pairs.find? fun pair => !Name.isValid pair.1 with
      | some _ => []
      | none => pairs.map fun pair => .write none (.value pair.1 pair.2)
  | .assignDefault =>
    match pairUp words with
    | .error _ => []
    | .ok pairs => pairs.map fun pair => .write none (.fallback pair.1 pair.2)
  | .enter =>
    match words with
    | [] => []
    | name :: others => [.activate name, .load others]
  | .retag => [.write none (.tag (words.headD (Route.tag .implicit)))]
  | _ => []

/-- What a step that a keyword takes can be, given the words that follow it. -/
inductive Registry.Step.Asked (words : List Text) : Registry.Step → Prop
  | value {key text : Text} (valid : Name.isValid key = true) (hkey : key ∈ words)
      (htext : text ∈ words) : Asked words (.write none (.value key text))
  | fallback {key text : Text} (hkey : key ∈ words) (htext : text ∈ words) :
      Asked words (.write none (.fallback key text))
  | activate {name : Text} (hname : name ∈ words) : Asked words (.activate name)
  | load {names : List Text} (hnames : names ⊆ words) : Asked words (.load names)
  | tag {text : Text} (htext : text ∈ words) : Asked words (.write none (.tag text))
  | untag : Asked words (.write none (.tag (Route.tag .implicit)))

theorem Keyword.asked_of_mem_steps {keyword : Keyword} {words : List Text} {step : Registry.Step}
    (h : step ∈ keyword.steps words) : step.Asked words := by
  cases keyword with
  | assign =>
    simp only [steps] at h
    split at h
    · cases h
    · next pairs hpairs =>
      split at h
      · cases h
      · next hnone =>
        obtain ⟨pair, hpair, rfl⟩ := List.mem_map.mp h
        obtain ⟨hkey, htext⟩ := Context.mem_of_pairUp hpairs pair hpair
        have hvalid := List.find?_eq_none.mp hnone pair hpair
        exact .value (by simpa using hvalid) hkey htext
  | assignDefault =>
    simp only [steps] at h
    split at h
    · cases h
    · next pairs hpairs =>
      obtain ⟨pair, hpair, rfl⟩ := List.mem_map.mp h
      obtain ⟨hkey, htext⟩ := Context.mem_of_pairUp hpairs pair hpair
      exact .fallback hkey htext
  | enter =>
    rcases words with - | ⟨name, others⟩
    · cases h
    · rcases List.mem_cons.mp h with rfl | hload
      · exact .activate List.mem_cons_self
      · rw [List.mem_singleton.mp hload]
        exact .load (List.subset_cons_self name others)
  | retag =>
    rw [List.mem_singleton.mp h]
    rcases words with - | ⟨text, others⟩
    · exact .untag
    · exact .tag List.mem_cons_self
  | style => cases h
  | classStyle => cases h
  | importModule => cases h
  | exposeTo => cases h
  | exportTo => cases h
  | dyegest => cases h
  | version => cases h

/-- The keyword that takes such a step. -/
def Registry.Step.keyword : Registry.Step → Keyword
  | .collection _ | .activate _ | .load _ => .enter
  | .write _ (.value _ _) => .assign
  | .write _ (.fallback _ _) => .assignDefault
  | .write _ (.tag _) => .retag

theorem Keyword.keyword_of_mem_steps {keyword : Keyword} {words : List Text}
    {step : Registry.Step} (h : step ∈ keyword.steps words) : step.keyword = keyword := by
  cases keyword with
  | assign =>
    simp only [steps] at h
    split at h
    · cases h
    · split at h
      · cases h
      · obtain ⟨pair, -, rfl⟩ := List.mem_map.mp h
        rfl
  | assignDefault =>
    simp only [steps] at h
    split at h
    · cases h
    · obtain ⟨pair, -, rfl⟩ := List.mem_map.mp h
      rfl
  | enter =>
    rcases words with - | ⟨name, others⟩
    · cases h
    · rcases List.mem_cons.mp h with rfl | hload
      · rfl
      · rw [List.mem_singleton.mp hload]
        rfl
  | retag =>
    rw [List.mem_singleton.mp h]
    rfl
  | style => cases h
  | classStyle => cases h
  | importModule => cases h
  | exposeTo => cases h
  | exportTo => cases h
  | dyegest => cases h
  | version => cases h

namespace Context

/-- The steps of the registry that a statement takes. -/
def steps (c : Context) (content : List Text) : List Registry.Step :=
  match c.command? content with
  | some (keyword, words) => keyword.steps words
  | none => []

theorem asked_of_mem_steps {c : Context} {content : List Text} {step : Registry.Step}
    (h : step ∈ c.steps content) :
    ∃ query words, c.evaluateAll content = .ok (query :: words) ∧ step.Asked words := by
  unfold steps at h
  split at h
  · next keyword words hcommand =>
    obtain ⟨query, hvalues, -⟩ := exists_of_command? hcommand
    exact ⟨query, words, hvalues, Keyword.asked_of_mem_steps h⟩
  · cases h

/-- A keyword either has a fault and takes no step, or does to the registry what its steps
    do. -/
theorem perform_cases (c : Context) (keyword : Keyword) (words : List Text) :
    (∃ fault, c.perform keyword words = .error fault ∧ keyword.steps words = []) ∨
    ∃ plan, c.perform keyword words = .ok plan ∧
      plan.context.registry = (keyword.steps words).foldl Registry.take c.registry := by
  have hstyle : (∃ fault, c.style words = .error fault ∧ ([] : List Registry.Step) = []) ∨
      ∃ plan, c.style words = .ok plan ∧ plan.context.registry = c.registry := by
    cases h : c.style words with
    | error fault => exact .inl ⟨fault, rfl, rfl⟩
    | ok plan => exact .inr ⟨plan, rfl, congrArg Context.registry (context_of_style h)⟩
  cases keyword with
  | assign =>
    simp only [perform, assign, Keyword.steps]
    cases pairUp words with
    | error last => exact .inl ⟨_, rfl, rfl⟩
    | ok pairs =>
      -- the names are looked at first, so either no value is given or all are
      cases hfind : pairs.find? fun pair => !Name.isValid pair.1 with
      | some pair =>
        simp only [hfind]
        exact .inl ⟨_, rfl, trivial⟩
      | none =>
        simp only [hfind, List.foldl_map]
        exact .inr ⟨_, rfl, rfl⟩
  | assignDefault =>
    simp only [perform, assignDefaults, Keyword.steps]
    cases pairUp words with
    | error last => exact .inl ⟨_, rfl, rfl⟩
    | ok pairs =>
      simp only [List.foldl_map]
      exact .inr ⟨_, rfl, rfl⟩
  | enter =>
    cases words with
    | nil => exact .inl ⟨_, rfl, rfl⟩
    | cons name others => exact .inr ⟨_, rfl, rfl⟩
  | style => exact hstyle
  | classStyle => exact hstyle
  | importModule => exact .inl ⟨_, rfl, rfl⟩
  | exposeTo => exact .inl ⟨_, rfl, rfl⟩
  | exportTo => exact .inl ⟨_, rfl, rfl⟩
  | retag => exact .inr ⟨_, rfl, rfl⟩
  | dyegest => exact .inr ⟨_, rfl, rfl⟩
  | version => exact .inr ⟨_, rfl, rfl⟩

end Context

theorem State.registry_interpret (file : Option Text) (s : State) (statement : Statement) :
    (s.interpret file statement).state.context.registry =
      (s.context.steps statement.content).foldl Registry.take s.context.registry := by
  rw [State.interpret_eq]
  cases hcommand : s.context.command? statement.content with
  | none =>
    have hsteps : s.context.steps statement.content = [] := by simp [Context.steps, hcommand]
    cases hplan : s.context.plan statement.content with
    | error fault => rw [hsteps]; rfl
    | ok plan =>
      have hcontext := Context.context_of_command?_eq_none hcommand hplan
      rw [hsteps]
      exact congrArg Context.registry hcontext
  | some command =>
    obtain ⟨keyword, words⟩ := command
    have hsteps : s.context.steps statement.content = keyword.steps words := by
      simp [Context.steps, hcommand]
    rw [Context.plan_of_command? hcommand, hsteps]
    rcases s.context.perform_cases keyword words with
      ⟨fault, hfault, hnone⟩ | ⟨plan, hplan, hregistry⟩
    · rw [hfault, hnone]
      rfl
    · rw [hplan]
      exact hregistry

theorem State.Reachable.sound {s : State} (h : s.Reachable) : s.context.registry.Sound := by
  induction h with
  | start strict => exact Registry.sound_start
  | interpret _ file statement ih =>
    rw [State.registry_interpret]
    exact ih.foldl_take _

namespace Run

def steps (file : Option Text) (start : State) (statements : List Statement) :
    List Registry.Step :=
  (visits file start statements).flatMap fun v => v.1.context.steps v.2.content

/-- The registry after a run is the one that its steps lead to. -/
theorem registry_statements (file : Option Text) (start : State) (statements : List Statement) :
    (Run.statements file start statements).state.context.registry =
      (steps file start statements).foldl Registry.take start.context.registry := by
  induction statements generalizing start with
  | nil => rfl
  | cons statement rest ih =>
    have hrest := ih (start.interpret file statement).state
    rw [State.registry_interpret] at hrest
    simp only [steps, visits, List.flatMap_cons, List.foldl_append]
    exact hrest

theorem sound_registry (file : Option Text) (modes : Modes) (statements : List Statement) :
    (Run.statements file { context := { modes } } statements).state.context.registry.Sound := by
  rw [registry_statements]
  exact Registry.sound_start.foldl_take _

/-- **The registry of a compilation represents what it is meant to.**  After any statements,
    failing ones included, every collection is kept under its own name, `root` is the oldest
    of them, the scope refers to collections that are there, the chain goes through distinct
    collections and meets `root` once, at the end unless something put it elsewhere, and
    comparing collections by what they hold finds the very collection that is loaded. -/
theorem registry_invariant (file : Option Text) (modes : Modes) (statements : List Statement) :
    let r := (Run.statements file { context := { modes } } statements).state.context.registry
    let chain := r.scope.chain r.content
    (∀ entry ∈ r.collections.entries, entry.2.name = entry.1) ∧
    r.collections.names.Nodup ∧
    r.collections.names.head? = some rootName ∧
    (∀ name ∈ r.scope.active :: r.scope.loaded,
      (name, r.content name) ∈ r.collections.entries) ∧
    r.scope.loaded.Nodup ∧
    r.scope.active ∉ r.scope.loaded ∧
    chain.head? = some r.scope.active ∧
    chain.Nodup ∧
    chain.count rootName = 1 ∧
    (rootName ≠ r.scope.active → rootName ∉ r.scope.loaded → chain.getLast? = some rootName) ∧
    ∀ name ∈ r.collections.names,
      r.scope.hasLoaded r.content name = true ↔ name ∈ r.scope.loaded := by
  intro r chain
  have h : r.Sound := sound_registry file modes statements
  refine ⟨?_, h.nodup_names, h.root_first, ?_, h.nodup_loaded, h.active_not_loaded, rfl,
    h.nodup_chain, ?_, h.getLast?_chain, ?_⟩
  · intro entry hentry
    rw [← h.content_of_mem hentry]
    exact (h.content_sound entry.1).name_eq
  · intro name hname
    apply h.mem_entries
    rcases List.mem_cons.mp hname with rfl | hloaded
    · exact h.active_mem
    · exact h.loaded_mem name hloaded
  · rw [h.nodup_chain.count, if_pos h.root_mem_chain]
  · intro name _
    exact h.hasLoaded_iff name

/-- Entering `a` over `b`, twice loaded: `root` comes last, and `b` is found loaded by what it
    holds. -/
theorem registry_invariant_entered :
    let statements : List Statement :=
      [{ content := ["#".toList, "a".toList, "b".toList, "b".toList, "a".toList] }]
    let r := (Run.statements none { context := { modes := {} } } statements).state.context.registry
    rootName ≠ r.scope.active ∧ rootName ∉ r.scope.loaded ∧
      (r.scope.chain r.content).getLast? = some rootName ∧
      "b".toList ∈ r.collections.names ∧
      (r.scope.hasLoaded r.content "b".toList = true ↔ "b".toList ∈ r.scope.loaded) := by
  intro statements r
  have hactive : rootName ≠ r.scope.active := by decide +kernel
  have hloaded : rootName ∉ r.scope.loaded := by decide +kernel
  have hname : "b".toList ∈ r.collections.names := by decide +kernel
  obtain ⟨_, _, _, _, _, _, _, _, _, hlast, hholds⟩ := registry_invariant none {} statements
  exact ⟨hactive, hloaded, hlast hactive hloaded, hname, hholds _ hname⟩

end Run

end Dyehouse
