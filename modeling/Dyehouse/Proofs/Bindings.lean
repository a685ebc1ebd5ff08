import Dyehouse.Proofs.Failure
import Dyehouse.Proofs.Identifiers
import Dyehouse.Proofs.Lookup

/-!
# What variables are bound to

A variable gets its explicit value from an assignment that is carried out, and from nothing else:
not from a default, nor by entering, loading or tagging a collection, nor from a statement that
fails.  So once it has one, it keeps it until it is assigned again under the same collection, and
a reference that goes straight to the collection finds it whatever the scope is by then.
-/

namespace Dyehouse

/-! ### References -/

namespace Reference

/-- A letter, followed by letters, digits and slashes. -/
def IsName : Text → Prop
  | [] => False
  | first :: rest => first.isAlpha = true ∧ ∀ c ∈ rest, isNameChar c = true

instance : DecidablePred IsName
  | [] => isFalse id
  | first :: rest =>
    decidable_of_iff ((first.isAlpha && rest.all isNameChar) = true) (by simp [IsName])

/-- A text that does not go on with the name of a reference. -/
def EndsName (suffix : Text) : Prop :=
  ∀ c ∈ suffix.head?, isNameChar c = false

/-- The longest name that a token allows is the one that it was written with. -/
theorem ofToken?_of_isName {name suffix : Text} (hname : IsName name) (hsuffix : EndsName suffix) :
    ofToken? ('&' :: (name ++ suffix)) = some { name, suffix } := by
  cases name with
  | nil => cases hname
  | cons first rest =>
    obtain ⟨hfirst, hrest⟩ := hname
    have hstop : suffix.takeWhile isNameChar = [] ∧ suffix.dropWhile isNameChar = suffix := by
      cases suffix with
      | nil => exact ⟨rfl, rfl⟩
      | cons c later =>
        have hc : isNameChar c = false := hsuffix c rfl
        simp [hc]
    rw [List.cons_append, ofToken?, if_pos hfirst, List.takeWhile_append_of_pos hrest,
      List.dropWhile_append_of_pos hrest, hstop.1, hstop.2, List.append_nil]

end Reference

theorem Name.IsIdentifier.isAlphanum {key : Text} (h : Name.IsIdentifier key) :
    ∀ c ∈ key, c.isAlphanum = true := by
  cases key with
  | nil => cases h
  | cons first rest =>
    refine List.forall_mem_cons.mpr ⟨?_, h.2⟩
    rw [Char.isAlphanum, h.1, Bool.true_or]

/-- A path to an identifier is the name of a reference. -/
theorem Reference.isName_path {collection key : Text} (hcollection : IsName collection)
    (hkey : Name.IsIdentifier key) : IsName (collection ++ '/' :: key) := by
  cases collection with
  | nil => cases hcollection
  | cons first rest =>
    refine ⟨hcollection.1, ?_⟩
    intro c hc
    rcases List.mem_append.mp hc with hrest | hpath
    · exact hcollection.2 c hrest
    · rcases List.mem_cons.mp hpath with rfl | hmem
      · rfl
      · rw [isNameChar, hkey.isAlphanum c hmem, Bool.true_or]

theorem Name.IsIdentifier.slash_not_mem {key : Text} (h : Name.IsIdentifier key) : '/' ∉ key := by
  intro hmem
  cases h.isAlphanum '/' hmem

/-! ### Several pairs for one name -/

/-- The value that the last pair for a name gives it. -/
def lastValue? (name : Text) (pairs : List (Text × Text)) : Option Text :=
  pairs.reverse.lookup name

theorem lastValue?_cons (name : Text) (pair : Text × Text) (rest : List (Text × Text)) :
    lastValue? name (pair :: rest) =
      (lastValue? name rest).or (if pair.1 = name then some pair.2 else none) := by
  rw [lastValue?, List.reverse_cons, List.lookup_append, Table.lookup_cons]
  rfl

theorem lastValue?_eq_none {name : Text} {pairs : List (Text × Text)}
    (h : name ∉ pairs.map Prod.fst) : lastValue? name pairs = none := by
  induction pairs with
  | nil => rfl
  | cons pair rest ih =>
    rw [List.map_cons, List.mem_cons, not_or] at h
    rw [lastValue?_cons, ih h.2, if_neg (Ne.symm h.1)]
    rfl

def Collection.assignAll (c : Collection) (pairs : List (Text × Text)) : Collection :=
  pairs.foldl (fun c pair => c.assign pair.1 pair.2) c

/-- Of several pairs for a name the last one counts. -/
theorem Collection.explicit?_assignAll (c : Collection) (pairs : List (Text × Text))
    (name : Text) :
    (c.assignAll pairs).explicit? name = (lastValue? name pairs).or (c.explicit? name) := by
  induction pairs generalizing c with
  | nil => rfl
  | cons pair rest ih =>
    have hfirst : (c.assign pair.1 pair.2).explicit? name =
        if name = pair.1 then some pair.2 else c.explicit? name := Table.get?_insert _ _ _ _
    change ((c.assign pair.1 pair.2).assignAll rest).explicit? name = _
    rw [ih, hfirst, lastValue?_cons, Option.or_assoc]
    by_cases h : name = pair.1
    · simp [h]
    · simp [h, Ne.symm h]

namespace Registry

theorem content_assignAll (r : Registry) (pairs : List (Text × Text)) (name : Text) :
    (r.assignAll pairs).content name =
      if name = r.scope.active then (r.content name).assignAll pairs else r.content name := by
  induction pairs generalizing r with
  | nil => exact (ite_self _).symm
  | cons pair rest ih =>
    have hfirst : (r.updateActive fun c => c.assign pair.1 pair.2).content name = _ :=
      content_update r r.scope.active name fun c => c.assign pair.1 pair.2
    have hscope : (r.updateActive fun c => c.assign pair.1 pair.2).scope = r.scope := rfl
    change ((r.updateActive fun c => c.assign pair.1 pair.2).assignAll rest).content name = _
    rw [ih, hfirst, hscope]
    by_cases h : name = r.scope.active
    · simp only [h, if_true]
      rfl
    · simp only [h, if_false]

theorem explicit?_update (r : Registry) (name : Text) {f : Collection → Collection}
    (hf : ∀ c : Collection, (f c).values = c.values) (holder key : Text) :
    ((r.update name f).content holder).explicit? key = (r.content holder).explicit? key := by
  rw [content_update]
  by_cases h : holder = name
  · rw [if_pos h, h, Collection.explicit?, hf]
    rfl
  · rw [if_neg h]

theorem explicit?_loadAll (r : Registry) (names : List Text) (holder key : Text) :
    ((r.loadAll names).content holder).explicit? key = (r.content holder).explicit? key := by
  induction names generalizing r with
  | nil => rfl
  | cons name rest ih =>
    have hcontent : (r.load name).content holder = (r.ensure name).content holder := rfl
    calc ((r.loadAll (name :: rest)).content holder).explicit? key
        = ((r.load name).content holder).explicit? key := ih (r.load name)
      _ = (r.content holder).explicit? key := by
          rw [hcontent]
          exact explicit?_update r name (fun _ => rfl) holder key

/-- Only giving a value gives a variable its explicit value. -/
theorem explicit?_take (r : Registry) {step : Step}
    (hstep : ∀ target name value, step ≠ .write target (.value name value))
    (holder key : Text) :
    ((r.take step).content holder).explicit? key = (r.content holder).explicit? key := by
  cases step with
  | collection name => exact explicit?_update r name (fun _ => rfl) holder key
  | activate name => exact explicit?_update r name (fun _ => rfl) holder key
  | load names => exact explicit?_loadAll r names holder key
  | write target w =>
    cases w with
    | value name value => exact absurd rfl (hstep target name value)
    | fallback name value =>
      have hf : ∀ c : Collection, (c.write (.fallback name value)).values = c.values := fun _ => rfl
      exact explicit?_update r _ hf holder key
    | tag tag =>
      have hf : ∀ c : Collection, (c.write (.tag tag)).values = c.values := fun _ => rfl
      exact explicit?_update r _ hf holder key

theorem explicit?_foldl_take (r : Registry) {steps : List Step}
    (hsteps : ∀ step ∈ steps, ∀ target name value, step ≠ .write target (.value name value))
    (holder key : Text) :
    ((steps.foldl take r).content holder).explicit? key = (r.content holder).explicit? key := by
  induction steps generalizing r with
  | nil => rfl
  | cons step rest ih =>
    rw [List.forall_mem_cons] at hsteps
    exact (ih (r.take step) hsteps.2).trans (explicit?_take r hsteps.1 holder key)

/-- A path goes straight to the collection that it names. -/
theorem get?_path {r : Registry} {holder key value : Text} (hkey : '/' ∉ key)
    (h : (r.content holder).explicit? key = some value) :
    r.get? (holder ++ '/' :: key) = some value := by
  rw [get?, Text.splitLast_append hkey]
  unfold content at h
  cases hget : r.collections.get? holder with
  | none =>
    rw [hget] at h
    cases h
  | some c =>
    rw [hget] at h
    have hvalue : c.explicit? key = some value := h
    simp only [hget, Option.bind_some, Collection.resolve?, hvalue, Option.some_or]

end Registry

/-! ### Assignments -/

namespace State

/-- The pairs that a statement binds under the active collection, if it is an assignment and is
    carried out. -/
def bindings? (file : Option Text) (s : State) (statement : Statement) :
    Option (List (Text × Text)) :=
  if s.fails file statement then none
  else
    match s.context.command? statement.content with
    | some (.assign, words) => (pairUp words).toOption
    | _ => none

variable {file : Option Text} {s : State} {statement : Statement}

/-- An assignment that does not fail binds its pairs, and their names have been checked. -/
theorem exists_bindings? {words : List Text} (hfails : s.fails file statement = false)
    (hcommand : s.context.command? statement.content = some (.assign, words)) :
    ∃ pairs, pairUp words = .ok pairs ∧ (∀ pair ∈ pairs, Name.isValid pair.1 = true) ∧
      s.bindings? file statement = some pairs ∧
      (s.interpret file statement).state.context.registry =
        s.context.registry.assignAll pairs := by
  have hplan : s.context.plan statement.content = s.context.assign words :=
    Context.plan_of_command? hcommand
  cases hassign : s.context.assign words with
  | error fault =>
    rw [fails_iff.mpr ⟨fault, hplan.trans hassign⟩] at hfails
    cases hfails
  | ok plan =>
    obtain ⟨pairs, hpairs, hvalid, rfl⟩ := Context.assign_eq_ok hassign
    refine ⟨pairs, hpairs, hvalid, ?_, ?_⟩
    · simp [bindings?, hfails, hcommand, hpairs, Except.toOption]
    · rw [interpret_eq, hplan, hassign]
      rfl

theorem registry_of_bindings? {pairs : List (Text × Text)}
    (h : s.bindings? file statement = some pairs) :
    (s.interpret file statement).state.context.registry = s.context.registry.assignAll pairs := by
  have hbindings := h
  unfold bindings? at h
  split at h
  · cases h
  · next hfails =>
    split at h
    · next words hcommand =>
      obtain ⟨found, -, -, hfound, hregistry⟩ :=
        exists_bindings? (Bool.eq_false_iff.mpr hfails) hcommand
      rw [hbindings] at hfound
      cases hfound
      exact hregistry
    · cases h

/-- **A variable keeps its explicit value through every statement that does not assign it.** -/
theorem explicit?_interpret {holder key : Text}
    (h : s.context.registry.scope.active = holder →
      ∀ pairs ∈ s.bindings? file statement, key ∉ pairs.map Prod.fst) :
    ((s.interpret file statement).state.context.registry.content holder).explicit? key =
      (s.context.registry.content holder).explicit? key := by
  cases hcommand : s.context.command? statement.content with
  | none =>
    rw [registry_interpret, Context.steps, hcommand]
    rfl
  | some command =>
    obtain ⟨keyword, words⟩ := command
    by_cases hkeyword : keyword = .assign
    · subst hkeyword
      cases hfails : s.fails file statement with
      | true => rw [(interpret_of_fails hfails).1]
      | false =>
        obtain ⟨pairs, -, -, hpairs, hregistry⟩ := exists_bindings? hfails hcommand
        rw [hregistry, Registry.content_assignAll]
        by_cases hholder : holder = s.context.registry.scope.active
        · have hnone := lastValue?_eq_none (h hholder.symm pairs hpairs)
          rw [if_pos hholder, Collection.explicit?_assignAll, hnone, Option.none_or]
        · rw [if_neg hholder]
    · rw [registry_interpret, Context.steps, hcommand]
      refine Registry.explicit?_foldl_take _ ?_ holder key
      rintro step hstep target name value rfl
      exact hkeyword (Keyword.keyword_of_mem_steps hstep).symm

end State

theorem Run.explicit?_statements {file : Option Text} {s : State} {statements : List Statement}
    {holder key : Text}
    (h : ∀ visit ∈ Run.visits file s statements,
      visit.1.context.registry.scope.active = holder →
        ∀ pairs ∈ visit.1.bindings? file visit.2, key ∉ pairs.map Prod.fst) :
    ((Run.statements file s statements).state.context.registry.content holder).explicit? key =
      (s.context.registry.content holder).explicit? key := by
  induction statements generalizing s with
  | nil => rfl
  | cons statement rest ih =>
    rw [Run.visits, List.forall_mem_cons] at h
    exact (ih h.2).trans (State.explicit?_interpret h.1)

/-- **A path is stable across changes of scope.**  Let an assignment that is carried out give `n`
    the value `v` while the collection `c` is active, and let any statements follow, of which none
    assigns `n` again while `c` is active: they may enter, load and tag collections, give `n`
    defaults anywhere and values elsewhere, fail, or turn modes on.  Then `&c/n` still stands for
    `v`, with whatever follows it that does not go on with the name. -/
theorem Run.path_stable_across_scopes (file : Option Text) (s : State) (c n v : Text)
    (hactive : s.context.registry.scope.active = c) (hc : Reference.IsName c)
    (hn : Name.IsIdentifier n) (statement : Statement) (pairs : List (Text × Text))
    (hpairs : s.bindings? file statement = some pairs) (hv : lastValue? n pairs = some v)
    (later : List Statement)
    (hlater : ∀ visit ∈ Run.visits file (s.interpret file statement).state later,
      visit.1.context.registry.scope.active = c →
        ∀ others ∈ visit.1.bindings? file visit.2, n ∉ others.map Prod.fst)
    (suffix : Text) (hsuffix : Reference.EndsName suffix) :
    (Run.statements file (s.interpret file statement).state later).state.context.evaluate
      ('&' :: (c ++ '/' :: n ++ suffix)) = .ok (v ++ suffix) := by
  have hbound : ((s.interpret file statement).state.context.registry.content c).explicit? n =
      some v := by
    rw [State.registry_of_bindings? hpairs, Registry.content_assignAll, if_pos hactive.symm,
      Collection.explicit?_assignAll, hv, Option.some_or]
  have hkept := (Run.explicit?_statements hlater).trans hbound
  have hget := Registry.get?_path hn.slash_not_mem hkept
  have href := Reference.ofToken?_of_isName (Reference.isName_path hc hn) hsuffix
  rw [Context.evaluate, href]
  simp only [hget]

/-- The variable is given a default, a value elsewhere and no value where its own collection is
    active: one assignment there leaves it out, and one fails and is reported. -/
theorem Run.path_stable_across_scopes_reentered :
    let c : Text := "theme/dark".toList
    let n : Text := "gap".toList
    let start : State := { context := { modes := { strict := true } } }
    let s := (Run.statements none start [{ content := ["#".toList, c] }]).state
    let statement : Statement :=
      { content := ["@".toList, n, "1px".toList, n, "2px".toList] }
    let later : List Statement :=
      [{ content := ["!@".toList, n, "3px".toList] },
       { content := ["!type".toList, "font".toList] },
       { content := ["#".toList, "page".toList, c] },
       { content := ["@".toList, n, "5px".toList] },
       { content := ["#".toList, c, "page".toList] },
       { content := ["@".toList, "side".toList, "7px".toList] },
       { content := ["@".toList, n, "8px".toList, "odd".toList] },
       { content := ["!dyegest".toList] }]
    let run := Run.statements none (s.interpret none statement).state later
    s.Reachable ∧ s.bindings? none statement = some [(n, "1px".toList), (n, "2px".toList)] ∧
      (∀ visit ∈ Run.visits none (s.interpret none statement).state later,
        visit.1.context.registry.scope.active = c →
          ∀ others ∈ visit.1.bindings? none visit.2, n ∉ others.map Prod.fst) ∧
      run.log.length = 2 ∧
      run.state.context.evaluate "&theme/dark/gap!important".toList =
        .ok "2px!important".toList := by
  intro c n start s statement later run
  have hs : s.Reachable := (State.Reachable.start true).statements none _
  have hpairs : s.bindings? none statement = some [(n, "1px".toList), (n, "2px".toList)] := by
    decide +kernel
  have hlater : ∀ visit ∈ Run.visits none (s.interpret none statement).state later,
      visit.1.context.registry.scope.active = c →
        ∀ others ∈ visit.1.bindings? none visit.2, n ∉ others.map Prod.fst := by
    decide +kernel
  have hactive : s.context.registry.scope.active = c := by decide +kernel
  have hc : Reference.IsName c := by decide +kernel
  have hn : Name.IsIdentifier n := by decide +kernel
  have hsuffix : Reference.EndsName "!important".toList := by
    rintro _ ⟨⟩
    rfl
  have hlog : run.log.length = 2 := by decide +kernel
  clear_value s
  have hpath := Run.path_stable_across_scopes none s c n "2px".toList hactive hc hn statement _
    hpairs rfl later hlater "!important".toList hsuffix
  exact ⟨hs, hpairs, hlater, hlog, hpath⟩

end Dyehouse
