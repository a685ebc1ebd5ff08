import Dyehouse.Proofs.Registry

/-!
# What a statement leaves alone

The active collection, the loaded ones and `root` may be one and the same, so a write that is
meant for one of them could show up in another place.  It does not: a statement writes to the
collection that is active before it and to no other, entering a scope writes to none and only
adds empty ones, and the route of the active collection says which of the four tables of the
sheet declarations may change.

Each part is a relation between the state before and the state after, with the same three lemmas:
nothing at all is such a change, one write is, and one after the other is.
-/

namespace Dyehouse

/-! ### Collections -/

namespace Registry

/-- The second registry differs from the first at most in what the active collection holds. -/
structure ChangesActive (r q : Registry) : Prop where
  scope_eq : q.scope = r.scope
  names_eq : q.collections.names = r.collections.names
  get?_eq : ∀ name, name ≠ r.scope.active → q.collections.get? name = r.collections.get? name

namespace ChangesActive

variable {r q p : Registry}

theorem refl (r : Registry) : r.ChangesActive r :=
  ⟨rfl, rfl, fun _ _ => rfl⟩

theorem trans (hrq : r.ChangesActive q) (hqp : q.ChangesActive p) : r.ChangesActive p where
  scope_eq := hqp.scope_eq.trans hrq.scope_eq
  names_eq := hqp.names_eq.trans hrq.names_eq
  get?_eq := by
    intro name hname
    have hactive : name ≠ q.scope.active := by
      rw [hrq.scope_eq]
      exact hname
    rw [hqp.get?_eq name hactive, hrq.get?_eq name hname]

theorem write (hactive : r.scope.active ∈ r.collections.names) (w : Collection.Write) :
    r.ChangesActive (r.take (.write none w)) where
  scope_eq := rfl
  names_eq := by
    change (r.update r.scope.active _).collections.names = _
    rw [names_update, if_pos hactive]
  get?_eq := fun _ hname => Table.get?_alter_of_ne _ hname

theorem foldl_write (hactive : r.scope.active ∈ r.collections.names) {steps : List Step}
    (hsteps : ∀ step ∈ steps, ∃ w, step = .write none w) :
    r.ChangesActive (steps.foldl take r) := by
  induction steps generalizing r with
  | nil => exact refl r
  | cons step rest ih =>
    rw [List.forall_mem_cons] at hsteps
    obtain ⟨⟨w, rfl⟩, hrest⟩ := hsteps
    have hwrite := write hactive w
    have hstill : (r.take (.write none w)).scope.active ∈
        (r.take (.write none w)).collections.names := by
      rw [hwrite.scope_eq, hwrite.names_eq]
      exact hactive
    exact hwrite.trans (ih hstill hrest)

end ChangesActive

/-- The second registry has the collections of the first as they are, and after them empty
    ones under new names. -/
def AddsEmpty (r q : Registry) : Prop :=
  ∃ fresh : List Text, (r.collections.names ++ fresh).Nodup ∧
    q.collections.entries =
      r.collections.entries ++ fresh.map fun name => (name, Collection.named name)

namespace AddsEmpty

variable {r q p : Registry}

theorem refl (h : r.Sound) : r.AddsEmpty r :=
  ⟨[], by simpa using h.nodup_names, by simp⟩

theorem names_eq {fresh : List Text}
    (h : q.collections.entries =
      r.collections.entries ++ fresh.map fun name => (name, Collection.named name)) :
    q.collections.names = r.collections.names ++ fresh := by
  simp [Table.names, h, Function.comp_def]

theorem trans (hrq : r.AddsEmpty q) (hqp : q.AddsEmpty p) : r.AddsEmpty p := by
  obtain ⟨first, -, hfirst⟩ := hrq
  obtain ⟨later, hnodup, hlater⟩ := hqp
  refine ⟨first ++ later, ?_, ?_⟩
  · rwa [names_eq hfirst, List.append_assoc] at hnodup
  · rw [hlater, hfirst, List.map_append, List.append_assoc]

/-- Naming a collection leaves it as it is, or makes an empty one. -/
theorem ensure (h : r.Sound) (name : Text) : r.AddsEmpty (r.ensure name) := by
  by_cases hmem : name ∈ r.collections.names
  · obtain ⟨c, hc⟩ := Table.mem_names_iff.mp hmem
    have hsame : (r.ensure name).collections = r.collections := by
      change r.collections.alter name _ = _
      rw [Table.alter_eq_insert, hc]
      exact Table.insert_eq_self hc
    exact ⟨[], by simpa using h.nodup_names, by simp [hsame]⟩
  · refine ⟨[name], ?_, Table.entries_alter_of_not_mem hmem _⟩
    have hnodup := (h.ensure name).nodup_names
    rwa [Registry.ensure, names_update, if_neg hmem] at hnodup

theorem loadAll (h : r.Sound) (names : List Text) : r.AddsEmpty (r.loadAll names) := by
  induction names generalizing r with
  | nil => exact refl h
  | cons name rest ih => exact trans (ensure h name) (ih (h.load name))

theorem enter (h : r.Sound) (name : Text) (others : List Text) :
    r.AddsEmpty ((r.activate name).loadAll others) :=
  trans (ensure h name) (loadAll (h.activate name) others)

theorem get?_eq (h : r.AddsEmpty q) {name : Text} (hname : name ∈ r.collections.names) :
    q.collections.get? name = r.collections.get? name := by
  obtain ⟨fresh, hnodup, hentries⟩ := h
  obtain ⟨c, hc⟩ := Table.mem_names_iff.mp hname
  have hmem : (name, c) ∈ q.collections.entries := by
    rw [hentries]
    exact List.mem_append_left _ (Table.mem_of_get?_eq_some hc)
  rw [hc, Table.get?_eq_some_iff (names_eq hentries ▸ hnodup)]
  exact hmem

end AddsEmpty

end Registry

theorem Keyword.exists_write_of_mem_steps {keyword : Keyword} {words : List Text}
    {step : Registry.Step} (hkeyword : keyword ≠ .enter) (h : step ∈ keyword.steps words) :
    ∃ w, step = .write none w := by
  have hasked := asked_of_mem_steps h
  have hstep := keyword_of_mem_steps h
  cases hasked with
  | value => exact ⟨_, rfl⟩
  | fallback => exact ⟨_, rfl⟩
  | activate => exact absurd hstep.symm hkeyword
  | load => exact absurd hstep.symm hkeyword
  | tag => exact ⟨_, rfl⟩
  | untag => exact ⟨_, rfl⟩

namespace State

variable {s : State}

theorem changesActive_interpret (h : s.context.registry.Sound) (file : Option Text)
    {statement : Statement} (hkeyword : s.context.keyword? statement.content ≠ some .enter) :
    s.context.registry.ChangesActive (s.interpret file statement).state.context.registry := by
  rw [registry_interpret]
  refine Registry.ChangesActive.foldl_write h.active_mem ?_
  intro step hstep
  unfold Context.steps at hstep
  split at hstep
  · next keyword words hcommand =>
    refine Keyword.exists_write_of_mem_steps ?_ hstep
    intro henter
    exact hkeyword (by rw [Context.keyword?, hcommand, henter]; rfl)
  · cases hstep

theorem addsEmpty_interpret (h : s.context.registry.Sound) (file : Option Text)
    {statement : Statement} (hkeyword : s.context.keyword? statement.content = some .enter) :
    s.context.registry.AddsEmpty (s.interpret file statement).state.context.registry := by
  obtain ⟨⟨keyword, words⟩, hcommand, rfl⟩ := Option.map_eq_some_iff.mp hkeyword
  rw [registry_interpret, Context.steps, hcommand]
  cases words with
  | nil => exact Registry.AddsEmpty.refl h
  | cons name others => exact Registry.AddsEmpty.enter h name others

end State

/-! ### Sheets -/

/-- The second table differs from the first at most under one name. -/
def Table.ChangesAt {α : Type} (name : Text) (t u : Table α) : Prop :=
  u = t ∨ ∃ value, u = t.insert name value

namespace Table.ChangesAt

variable {α : Type} {name : Text} {t u v : Table α}

theorem alter (t : Table α) (name : Text) (f : Option α → α) : t.ChangesAt name (t.alter name f) :=
  Or.inr ⟨_, alter_eq_insert t name f⟩

theorem trans (htu : t.ChangesAt name u) (huv : u.ChangesAt name v) : t.ChangesAt name v := by
  rcases huv with rfl | ⟨value, rfl⟩
  · exact htu
  · rcases htu with rfl | ⟨earlier, rfl⟩
    · exact Or.inr ⟨value, rfl⟩
    · exact Or.inr ⟨value, alter_alter t name _ _⟩

end Table.ChangesAt

/-- The second sheet differs from the first at most in the table that a route leads to; among
    animations, of either kind, at most in the one of the given name. -/
def Sheet.ChangesBy (route : Route) (name : Text) (old new : Sheet) : Prop :=
  match route with
  | .implicit | .style => new = { old with styles := new.styles }
  | .animation =>
    new = { old with animations := new.animations } ∧ old.animations.ChangesAt name new.animations
  | .motion => new = { old with motions := new.motions } ∧ old.motions.ChangesAt name new.motions
  | .font => new = { old with fonts := new.fonts }

namespace Sheet

variable {route : Route} {name : Text} {a b c : Sheet}

theorem ChangesBy.refl (route : Route) (name : Text) (sheet : Sheet) :
    sheet.ChangesBy route name sheet := by
  cases route with
  | implicit => exact rfl
  | style => exact rfl
  | animation => exact ⟨rfl, Or.inl rfl⟩
  | motion => exact ⟨rfl, Or.inl rfl⟩
  | font => exact rfl

theorem ChangesBy.trans (hab : a.ChangesBy route name b) (hbc : b.ChangesBy route name c) :
    a.ChangesBy route name c := by
  cases route with
  | implicit => rw [ChangesBy, hbc, hab]
  | style => rw [ChangesBy, hbc, hab]
  | animation => exact ⟨by rw [hbc.1, hab.1], hab.2.trans hbc.2⟩
  | motion => exact ⟨by rw [hbc.1, hab.1], hab.2.trans hbc.2⟩
  | font => rw [ChangesBy, hbc, hab]

theorem changesBy_declare (sheet : Sheet) (active : Collection) (selector property value : Text) :
    sheet.ChangesBy active.route active.name
      (sheet.apply (.declare active selector property value)) := by
  unfold Edit.declare
  cases active.route with
  | implicit => exact rfl
  | style => exact rfl
  | animation => exact ⟨rfl, Table.ChangesAt.alter _ _ _⟩
  | motion => exact ⟨rfl, Table.ChangesAt.alter _ _ _⟩
  | font =>
    dsimp only
    split
    · exact rfl
    · exact rfl

theorem changesBy_addCandidates (sheet : Sheet) (name : Text) (candidates : List Candidate) :
    sheet.ChangesBy .style name (sheet.addCandidates candidates) := by
  induction candidates generalizing sheet with
  | nil => exact ChangesBy.refl _ _ sheet
  | cons candidate rest ih =>
    have hfirst : sheet.ChangesBy .style name
        (sheet.addValue candidate.selector candidate.property candidate.value) := rfl
    exact hfirst.trans (ih _)

theorem changesBy_copyClass (sheet : Sheet) (name : Text) (selectors : List Text)
    (className : Text) : sheet.ChangesBy .style name (sheet.apply (.copyClass selectors className)) := by
  change sheet.ChangesBy .style name ((sheet.applyClass? selectors className).getD sheet)
  unfold applyClass?
  cases sheet.findClass? className with
  | none => exact ChangesBy.refl _ _ sheet
  | some style => exact changesBy_addCandidates sheet name _

theorem changesBy_applyAll {edits : List Edit}
    (hedits : ∀ edit ∈ edits, ∀ sheet : Sheet, sheet.ChangesBy route name (sheet.apply edit))
    (sheet : Sheet) : sheet.ChangesBy route name (sheet.applyAll edits) := by
  induction edits generalizing sheet with
  | nil => exact ChangesBy.refl route name sheet
  | cons edit rest ih =>
    rw [List.forall_mem_cons] at hedits
    exact (hedits.1 sheet).trans (ih hedits.2 _)

theorem changesBy_declareAll (sheet : Sheet) (active : Collection) (selectors : List Text)
    (declarations : List (Text × Text)) :
    sheet.ChangesBy active.route active.name
      (sheet.applyAll (declareAll active selectors declarations)) := by
  refine changesBy_applyAll ?_ sheet
  intro edit hedit sheet
  simp only [declareAll, List.mem_flatMap, List.mem_map] at hedit
  obtain ⟨declaration, -, selector, -, rfl⟩ := hedit
  exact changesBy_declare sheet active selector declaration.1 declaration.2

theorem changesBy_applyClass (sheet : Sheet) (context : Context) (className : Text)
    (targets : List Text) :
    sheet.ChangesBy .style name (sheet.applyAll (context.applyClass className targets).edits) := by
  refine changesBy_applyAll ?_ sheet
  intro edit hedit sheet
  obtain ⟨target, -, rfl⟩ := List.mem_map.mp hedit
  exact changesBy_copyClass sheet name (targetSelectors target) className

end Sheet

/-! ### Statements -/

namespace State

variable {s : State}

theorem sheet_interpret (file : Option Text) {statement : Statement}
    (hstyle : s.context.keyword? statement.content ≠ some .style)
    (hclass : s.context.keyword? statement.content ≠ some .classStyle)
    (hname : s.context.application? statement.content = none) :
    (s.interpret file statement).state.sheet = s.sheet := by
  rcases interpret_cases file s statement with hsame | ⟨plan, hplans, hfollow⟩
  · rw [hsame]
  · rw [hfollow]
    cases hplans with
    | keyword hcommand _ hperforms =>
      cases hperforms with
      | bookkeeping => rfl
      | declaring hdeclares =>
        rw [Context.keyword?, hcommand] at hstyle hclass
        rcases hdeclares with rfl | rfl
        · exact absurd rfl hstyle
        · exact absurd rfl hclass
      | digesting => rfl
    | application _ hsome =>
      rw [hname] at hsome
      cases hsome
    | idle => rfl

theorem changesBy_interpret_of_style (file : Option Text) {statement : Statement}
    (hkeyword : s.context.keyword? statement.content = some .style ∨
      s.context.keyword? statement.content = some .classStyle) :
    s.sheet.ChangesBy s.context.registry.active.route s.context.registry.active.name
      (s.interpret file statement).state.sheet := by
  rcases interpret_cases file s statement with hsame | ⟨plan, hplans, hfollow⟩
  · rw [hsame]
    exact Sheet.ChangesBy.refl _ _ s.sheet
  · rw [hfollow]
    cases hplans with
    | keyword _ _ hperforms =>
      cases hperforms with
      | bookkeeping => exact Sheet.ChangesBy.refl _ _ s.sheet
      | declaring => exact Sheet.changesBy_declareAll s.sheet s.context.registry.active _ _
      | digesting => exact Sheet.ChangesBy.refl _ _ s.sheet
    | application hcommand =>
      rw [Context.keyword?, hcommand] at hkeyword
      rcases hkeyword with hnone | hnone <;> cases hnone
    | idle => exact Sheet.ChangesBy.refl _ _ s.sheet

theorem changesBy_interpret_of_application (file : Option Text) {statement : Statement}
    {name : Text} (hname : s.context.application? statement.content = some name) :
    s.sheet.ChangesBy .style name (s.interpret file statement).state.sheet := by
  rcases interpret_cases file s statement with hsame | ⟨plan, hplans, hfollow⟩
  · rw [hsame]
    exact Sheet.ChangesBy.refl _ _ s.sheet
  · rw [hfollow]
    cases hplans with
    | keyword _ hnone =>
      rw [hnone] at hname
      cases hname
    | application => exact Sheet.changesBy_applyClass s.sheet s.context _ _
    | idle => exact Sheet.ChangesBy.refl _ _ s.sheet

theorem modes_interpret (file : Option Text) (s : State) (statement : Statement) :
    (s.interpret file statement).state.context.modes = s.context.modes ∨
      s.context.keyword? statement.content = some .dyegest ∧
        (s.interpret file statement).state.context.modes = { strict := true, dyegest := true } := by
  rcases interpret_cases file s statement with hsame | ⟨plan, hplans, hfollow⟩
  · rw [hsame]
    exact Or.inl rfl
  · rw [hfollow]
    cases hplans with
    | keyword hcommand _ hperforms =>
      cases hperforms with
      | bookkeeping => exact Or.inl rfl
      | declaring => exact Or.inl rfl
      | digesting => exact Or.inr ⟨by rw [Context.keyword?, hcommand]; rfl, rfl⟩
    | application => exact Or.inl rfl
    | idle => exact Or.inl rfl

/-- **A statement touches only its own part of the state.**  Of the collections that are there, it
    changes at most the one that is active before it, and only entering a scope adds others: empty
    ones, after those that are there, all of which stay as they are.  The sheet is changed by
    declarations and by the application of classes alone: by a declaration at most in the table
    that the route of the active collection leads to, and among animations at most in the one
    named like the active collection, and by an application at most in its styles.  The modes are
    changed by `!dyegest` alone. -/
theorem touches_only_its_part (hs : s.Reachable) (file : Option Text) (statement : Statement) :
    let t := (s.interpret file statement).state
    let active := s.context.registry.scope.active
    let old := s.context.registry.collections
    let new := t.context.registry.collections
    let keyword := s.context.keyword? statement.content
    let application := s.context.application? statement.content
    (∀ name ∈ old.names, name ≠ active → new.get? name = old.get? name) ∧
    (keyword ≠ some .enter → new.names = old.names ∧
      t.context.registry.scope = s.context.registry.scope) ∧
    (keyword = some .enter → ∃ fresh : List Text, (old.names ++ fresh).Nodup ∧
      new.entries = old.entries ++ fresh.map fun name => (name, Collection.named name)) ∧
    (∀ k, keyword = some k → k ≠ .style → k ≠ .classStyle → t.sheet = s.sheet) ∧
    (keyword = some .style ∨ keyword = some .classStyle →
      s.sheet.ChangesBy s.context.registry.active.route active t.sheet) ∧
    (∀ name, application = some name → t.sheet = { s.sheet with styles := t.sheet.styles }) ∧
    (keyword = none → application = none → t.sheet = s.sheet) ∧
    (keyword ≠ some .dyegest → t.context.modes = s.context.modes) := by
  intro t active old new keyword application
  have hsound := hs.sound
  have hname : s.context.registry.active.name = active := (hsound.content_sound active).name_eq
  refine ⟨?_, ?_, ?_, ?_, ?_, ?_, ?_, ?_⟩
  · intro name hmem hne
    by_cases henter : keyword = some .enter
    · exact (addsEmpty_interpret hsound file henter).get?_eq hmem
    · exact (changesActive_interpret hsound file henter).get?_eq name hne
  · intro henter
    have hchanges := changesActive_interpret hsound file henter
    exact ⟨hchanges.names_eq, hchanges.scope_eq⟩
  · intro henter
    exact addsEmpty_interpret hsound file henter
  · intro k hk hstyle hclass
    obtain ⟨command, hcommand, rfl⟩ := Option.map_eq_some_iff.mp hk
    refine sheet_interpret file ?_ ?_ (Context.application?_of_command? hcommand)
    · intro hsome
      exact hstyle (Option.some.inj (hk.symm.trans hsome))
    · intro hsome
      exact hclass (Option.some.inj (hk.symm.trans hsome))
  · intro hstyle
    rw [← hname]
    exact changesBy_interpret_of_style file hstyle
  · intro name happlies
    exact changesBy_interpret_of_application file happlies
  · intro hnone
    have hother : ∀ k, keyword ≠ some k := by simp [hnone]
    exact sheet_interpret file (hother .style) (hother .classStyle)
  · intro hdyegest
    rcases modes_interpret file s statement with hsame | ⟨hkeyword, -⟩
    · exact hsame
    · exact absurd hkeyword hdyegest

/-- Under `spin`, an animation with `root` loaded beneath it: a declaration changes the animation
    `spin` and leaves the variables of `root` alone. -/
theorem touches_only_its_part_animation :
    let before : List Statement :=
      [{ content := ["@".toList, "gap".toList, "4px".toList] },
       { content := ["$".toList, ".a".toList, "top".toList, "&gap".toList] },
       { content := ["#".toList, "spin".toList, rootName] },
       { content := ["!type".toList, "animation".toList] }]
    let statement : Statement :=
      { content := ["$".toList, "from, to".toList, "opacity".toList, "&gap".toList] }
    let s := (Run.statements none {} before).state
    let t := (s.interpret none statement).state
    s.Reachable ∧ s.context.keyword? statement.content = some .style ∧
      s.context.registry.active.route = .animation ∧
      t.context.registry.collections.get? rootName = s.context.registry.collections.get? rootName ∧
      t.sheet = { s.sheet with animations := t.sheet.animations } ∧
      (∃ frames, t.sheet.animations = s.sheet.animations.insert "spin".toList frames) ∧
      t.context.modes = s.context.modes := by
  intro before statement s t
  have hs : s.Reachable := (Reachable.start false).statements none before
  have hkeyword : s.context.keyword? statement.content = some .style := by decide +kernel
  have hroute : s.context.registry.active.route = .animation := by decide +kernel
  have hactive : s.context.registry.scope.active = "spin".toList := by decide +kernel
  have hroot : rootName ∈ s.context.registry.collections.names := by decide +kernel
  have hwrites : t.sheet.animations ≠ s.sheet.animations := by decide +kernel
  clear_value s
  obtain ⟨hothers, -, -, -, hstyle, -, -, hmodes⟩ := touches_only_its_part hs none statement
  have hchanges := hstyle (Or.inl hkeyword)
  rw [hroute, hactive] at hchanges
  refine ⟨hs, hkeyword, hroute, hothers rootName hroot ?_, hchanges.1, ?_, hmodes ?_⟩
  · rw [hactive]
    decide
  · exact hchanges.2.resolve_left hwrites
  · rw [hkeyword]
    decide

end State

end Dyehouse
