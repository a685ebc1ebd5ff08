import Dyehouse.Proofs.Registry

/-!
# Looking variables up

A scope leaves out of its chain what would only be met a second time: the active collection
when it is loaded again, a collection that is loaded twice, and `root` when it has been met
already.  None of that shows.  A lookup finds what it would find by going through the active
collection, then every collection ever asked for since it became active, in the order in
which they were asked for and with all repetitions, and then `root`.
-/

namespace Dyehouse

theorem Text.splitLast_eq_none {sep : Char} {t : Text} (h : sep ∉ t) : splitLast sep t = none := by
  induction t with
  | nil => rfl
  | cons c rest ih =>
    rw [List.mem_cons, not_or] at h
    rw [splitLast, ih h.2, if_neg (Ne.symm h.1)]

theorem Text.not_mem_of_splitLast_eq_none {sep : Char} {t : Text} (h : splitLast sep t = none) :
    sep ∉ t := by
  induction t with
  | nil => exact List.not_mem_nil
  | cons c rest ih =>
    rw [splitLast] at h
    split at h
    · cases h
    · next hnone =>
      split at h
      · cases h
      · next hc =>
        rw [List.mem_cons, not_or]
        exact ⟨Ne.symm hc, ih hnone⟩

theorem Text.splitLast_append {sep : Char} {after : Text} (h : sep ∉ after) (before : Text) :
    splitLast sep (before ++ sep :: after) = some (before, after) := by
  induction before with
  | nil => simp [splitLast, splitLast_eq_none h]
  | cons c rest ih => simp [splitLast, ih]

/-- Splitting at the last separator leaves none behind it. -/
theorem Text.splitLast_eq_some_iff {sep : Char} {t before after : Text} :
    splitLast sep t = some (before, after) ↔ t = before ++ sep :: after ∧ sep ∉ after := by
  constructor
  · intro h
    induction t generalizing before with
    | nil => cases h
    | cons c rest ih =>
      rw [splitLast] at h
      split at h
      · next cut hcut =>
        cases h
        obtain ⟨hrest, hafter⟩ := ih hcut
        exact ⟨congrArg (c :: ·) hrest, hafter⟩
      · next hnone =>
        split at h
        · next hc =>
          cases h
          exact ⟨by rw [hc]; rfl, not_mem_of_splitLast_eq_none hnone⟩
        · cases h
  · rintro ⟨rfl, hafter⟩
    exact splitLast_append hafter before

theorem findSome?_concat {α β : Type} (items : List α) (item : α) (f : α → Option β) :
    (items ++ [item]).findSome? f = (items.findSome? f).or (f item) := by
  rw [List.findSome?_append]
  cases hitem : f item <;> simp [hitem]

/-- What answers as something before it does is not found. -/
theorem findSome?_concat_of_alike {α β : Type} {items : List α} {item : α} {f : α → Option β}
    (h : ∃ other ∈ items, f other = f item) :
    (items ++ [item]).findSome? f = items.findSome? f := by
  obtain ⟨other, hmem, hother⟩ := h
  rw [findSome?_concat]
  cases hfound : items.findSome? f with
  | some value => rfl
  | none => rw [← hother, List.findSome?_eq_none_iff.mp hfound other hmem, Option.none_or]

/-- What is met a second time is not found: it would have been found before. -/
theorem findSome?_append_of_mem {α β : Type} {items : List α} {item : α} (h : item ∈ items)
    (f : α → Option β) : (items ++ [item]).findSome? f = items.findSome? f :=
  findSome?_concat_of_alike ⟨item, h, rfl⟩

namespace Registry

/-! ### Lookup without shortcuts -/

/-- The collection made active last, and everything asked to be loaded since. -/
structure Requests where
  active : Text := rootName
  loads : List Text := []
  deriving DecidableEq, Repr

namespace Requests

def note (q : Requests) : Step → Requests
  | .collection _ => q
  | .activate name => { active := name }
  | .load names => { q with loads := q.loads ++ names }
  | .write _ _ => q

def ofSteps (steps : List Step) : Requests :=
  steps.foldl note {}

/-- The collections that a lookup without shortcuts goes through. -/
def order (q : Requests) : List Text :=
  q.active :: (q.loads ++ [rootName])

end Requests

/-- Lookup without shortcuts: the first explicit value in the order of the requests, else
    the first default in the same order. -/
def plainGet? (r : Registry) (q : Requests) (key : Text) : Option Text :=
  (q.order.findSome? fun name => (r.content name).explicit? key).or
    (q.order.findSome? fun name => (r.content name).default? key)

/-! ### The shortcuts do not show -/

/-- A sound registry whose scope finds what the requests find, whatever is looked for. -/
structure Answers (r : Registry) (q : Requests) : Prop where
  sound : r.Sound
  active_eq : r.scope.active = q.active
  hits_eq : ∀ f : Text → Option Text,
    (r.scope.active :: r.scope.loaded).findSome? f = (q.active :: q.loads).findSome? f

theorem answers_start : Answers {} {} where
  sound := sound_start
  active_eq := rfl
  hits_eq := fun _ => rfl

namespace Answers

variable {r : Registry} {q : Requests}

theorem update (h : Answers r q) (name : Text) {f : Collection → Collection}
    (hf : ∀ c : Collection, c.Sound name → (f c).Sound name) : Answers (r.update name f) q where
  sound := h.sound.update name hf
  active_eq := h.active_eq
  hits_eq := h.hits_eq

theorem activate (h : Answers r q) (name : Text) :
    Answers (r.activate name) { active := name } where
  sound := h.sound.activate name
  active_eq := rfl
  hits_eq := fun _ => rfl

theorem load (h : Answers r q) (name : Text) :
    Answers (r.load name) { q with loads := q.loads ++ [name] } := by
  have hsound := h.sound.load name
  have heq := h.sound.load_eq name
  by_cases hseen : name = r.scope.active ∨ name ∈ r.scope.loaded
  · -- nothing is loaded, and asking for the name once more finds nothing new
    rw [if_pos hseen] at heq
    have hmem : name ∈ r.scope.active :: r.scope.loaded := List.mem_cons.mpr hseen
    refine ⟨hsound, ?_, ?_⟩
    · rw [heq]
      exact h.active_eq
    · intro f
      rw [heq]
      calc (r.scope.active :: r.scope.loaded).findSome? f
          = ((r.scope.active :: r.scope.loaded) ++ [name]).findSome? f :=
            (findSome?_append_of_mem hmem f).symm
        _ = ((q.active :: q.loads) ++ [name]).findSome? f := by
            rw [List.findSome?_append, List.findSome?_append, h.hits_eq]
  · rw [if_neg hseen] at heq
    refine ⟨hsound, ?_, ?_⟩
    · rw [heq]
      exact h.active_eq
    · intro f
      rw [heq]
      change ((r.scope.active :: r.scope.loaded) ++ [name]).findSome? f =
        ((q.active :: q.loads) ++ [name]).findSome? f
      rw [List.findSome?_append, List.findSome?_append, h.hits_eq]

theorem loadAll (h : Answers r q) (names : List Text) :
    Answers (r.loadAll names) { q with loads := q.loads ++ names } := by
  induction names generalizing r q with
  | nil =>
    rw [List.append_nil]
    exact h
  | cons name rest ih =>
    have hrest := ih (h.load name)
    rw [List.append_assoc] at hrest
    exact hrest

theorem take (h : Answers r q) (step : Step) : Answers (r.take step) (q.note step) := by
  cases step with
  | collection name => exact h.update name fun _ hc => hc
  | activate name => exact h.activate name
  | load names => exact h.loadAll names
  | write holder w => exact h.update _ fun _ hc => hc.write w

theorem foldl_take (h : Answers r q) (steps : List Step) :
    Answers (steps.foldl Registry.take r) (steps.foldl Requests.note q) := by
  induction steps generalizing r q with
  | nil => exact h
  | cons step rest ih => exact ih (h.take step)

/-- Along the chain the first hit is the one in the order of the requests. -/
theorem findSome?_chain (h : Answers r q) (f : Text → Option Text) :
    (r.scope.chain r.content).findSome? f = q.order.findSome? f := by
  have hchain : (r.scope.chain r.content).findSome? f =
      ((r.scope.active :: r.scope.loaded) ++ [rootName]).findSome? f := by
    unfold Scope.chain
    rw [← List.cons_append, h.sound.ancestors_eq]
    by_cases hseen : rootName ∈ r.scope.active :: r.scope.loaded
    · rw [if_pos hseen, List.append_nil, findSome?_append_of_mem hseen]
    · rw [if_neg hseen]
  have horder : q.order = (q.active :: q.loads) ++ [rootName] := rfl
  rw [hchain, horder, List.findSome?_append, List.findSome?_append, h.hits_eq]

theorem get?_eq (h : Answers r q) {name : Text} (hname : '/' ∉ name) :
    r.get? name = r.plainGet? q name := by
  rw [get?, Text.splitLast_eq_none hname]
  change ((r.scope.chain r.content).findSome? _).or ((r.scope.chain r.content).findSome? _) = _
  rw [h.findSome?_chain, h.findSome?_chain]
  rfl

end Answers

/-- **Scopes look up what the plain order finds.**  After any steps of a registry, and in
    particular after any statements, a name without a slash has the value that it has in a
    lookup without shortcuts. -/
theorem get?_eq_plainGet? :
    (∀ (steps : List Step) (name : Text), '/' ∉ name →
      (after steps).get? name = (after steps).plainGet? (.ofSteps steps) name) ∧
    ∀ (file : Option Text) (modes : Modes) (statements : List Statement) (name : Text),
      '/' ∉ name →
      let start : State := { context := { modes } }
      let steps := Run.steps file start statements
      let r := (Run.statements file start statements).state.context.registry
      r = after steps ∧ r.get? name = r.plainGet? (.ofSteps steps) name := by
  have hsteps : ∀ (steps : List Step) (name : Text), '/' ∉ name →
      (after steps).get? name = (after steps).plainGet? (.ofSteps steps) name := by
    intro steps name hname
    exact (answers_start.foldl_take steps).get?_eq hname
  refine ⟨hsteps, ?_⟩
  intro file modes statements name hname start steps r
  have hr : r = after steps := Run.registry_statements file start statements
  refine ⟨hr, ?_⟩
  rw [hr]
  exact hsteps steps name hname

/-- Under `a`, with `b` and `root` loaded among repetitions, a variable of `root` and of `b`
    is the one of `b`, although `b` was given it after it was loaded. -/
theorem get?_eq_plainGet?_repeated :
    let x := "x".toList
    let b := "b".toList
    let steps : List Step :=
      [.write none (.value x "1".toList), .activate "a".toList,
       .load ["a".toList, b, b, rootName, b], .write (some b) (.value x "2".toList)]
    '/' ∉ x ∧ (after steps).get? x = (after steps).plainGet? (.ofSteps steps) x ∧
      (after steps).get? x = some "2".toList := by
  intro x b steps
  have hx : '/' ∉ x := by decide
  exact ⟨hx, get?_eq_plainGet?.1 steps x hx, by decide +kernel⟩

end Registry

end Dyehouse
