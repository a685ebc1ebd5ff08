import Dyehouse.Run

/-!
# What a statement asks for

The handlers check and write in turn, and a proof about them would have to follow every
write.  Here a statement is worked out against its context alone, without writing anything:
it either has a fault, or comes down to a *plan*, which is the context that later statements
are read against, the edits to make, and what the statement has to say.

`Action.run_execute` says that carrying out a statement is working it out and then following
the plan.  The handlers therefore make all their checks before their first write, and
`State.interpret_eq` is the form in which the rest of the theory looks at a statement.
-/

namespace Dyehouse

/-- What a statement asks for. -/
structure Plan where
  context : Context
  edits : List Edit := []
  remarks : List Remark := []
  deriving DecidableEq, Repr

/-! ### Loops of writes, as single changes -/

def Registry.assignAll (r : Registry) (pairs : List (Text × Text)) : Registry :=
  pairs.foldl (fun r pair => r.updateActive fun c => c.assign pair.1 pair.2) r

def Registry.assignDefaults (r : Registry) (pairs : List (Text × Text)) : Registry :=
  pairs.foldl (fun r pair => r.updateActive fun c => c.assignDefault pair.1 pair.2) r

def Sheet.applyAll (sheet : Sheet) (edits : List Edit) : Sheet :=
  edits.foldl apply sheet

/-- The classes that edits made one after the other ask for and do not find. -/
def Sheet.lacking (sheet : Sheet) : List Edit → List Text
  | [] => []
  | edit :: rest => (sheet.lacks? edit).toList ++ (sheet.apply edit).lacking rest

/-- The edits that declarations under selectors ask for: each declaration under every
    selector before the next declaration. -/
def declareAll (active : Collection) (selectors : List Text)
    (declarations : List (Text × Text)) : List Edit :=
  declarations.flatMap fun declaration => selectors.map fun selector =>
    Edit.declare active selector declaration.1 declaration.2

/-! ### The handlers, without the writing -/

namespace Context

def assign (c : Context) (words : List Text) : Except Fault Plan :=
  match pairUp words with
  | .error last => .error (.misfit (.unpaired .assign last))
  | .ok pairs =>
    match pairs.find? fun pair => !Name.isValid pair.1 with
    | some pair => .error (.invalidName pair.1)
    | none => .ok { context := c.withRegistry fun r => r.assignAll pairs }

def assignDefaults (c : Context) (words : List Text) : Except Fault Plan :=
  match pairUp words with
  | .error last => .error (.misfit (.unpaired .assignDefault last))
  | .ok pairs => .ok { context := c.withRegistry fun r => r.assignDefaults pairs }

def enter (c : Context) : List Text → Except Fault Plan
  | [] => .error (.misfit .noCollection)
  | name :: others => .ok { context := c.withRegistry fun r => (r.activate name).loadAll others }

def retag (c : Context) (words : List Text) : Plan :=
  let tag := words.headD (Route.tag .implicit)
  { context := c.withRegistry fun r => r.updateActive fun collection => collection.retag tag
    remarks := if (Route.ofTag? tag).isSome then [] else [.unknownTag tag] }

def style (c : Context) : List Text → Except Fault Plan
  | [] => .error (.misfit .noSelector)
  | list :: rest =>
    if (Text.items list).isEmpty then .error (.misfit (.blankSelectors list))
    else
      match pairUp rest with
      | .error last => .error (.misfit (.noValue last))
      | .ok pairs => .ok
          { context := c
            edits := declareAll c.registry.active (Text.items list) (declarations pairs) }

def applyClass (c : Context) (name : Text) (targets : List Text) : Plan :=
  { context := c
    edits := targets.map fun target => .copyClass (targetSelectors target) name }

def checkVersion (c : Context) (words : List Text) : Plan :=
  { context := c
    remarks := if words.head? = some languageVersion then [] else [.otherVersion words.head?] }

def perform (c : Context) (keyword : Keyword) (words : List Text) : Except Fault Plan :=
  match keyword with
  | .assign => c.assign words
  | .assignDefault => c.assignDefaults words
  | .enter => c.enter words
  | .style | .classStyle => c.style words
  | .importModule | .exposeTo | .exportTo => .error (.unsupported keyword.word)
  | .retag => .ok (c.retag words)
  | .dyegest => .ok { context := c.enableStrict.enableDyegest, remarks := [.dyegestEnabled] }
  | .version => .ok (c.checkVersion words)

def dispatch (c : Context) (query : Text) (words : List Text) : Except Fault Plan :=
  match ClassQuery.ofToken? query with
  | some name => .ok (c.applyClass name words)
  | none =>
    match Keyword.ofToken? query with
    | some keyword => c.perform keyword words
    | none =>
      if c.modes.strict then .error (.unknown query)
      else .ok { context := c, remarks := [.ignored query] }

/-- What a statement asks for: its tokens are evaluated, and then it is worked out. -/
def plan (c : Context) (content : List Text) : Except Fault Plan :=
  match c.evaluateAll content with
  | .error fault => .error fault
  | .ok [] => .ok { context := c }
  | .ok (query :: words) => c.dispatch query words

/-! ### Keywords and what follows them -/

/-- The keyword that the evaluated statement starts with, and the words that follow it. -/
def command? (c : Context) (content : List Text) : Option (Keyword × List Text) :=
  match c.evaluateAll content with
  | .ok (query :: words) =>
    match ClassQuery.ofToken? query with
    | some _ => none
    | none => (Keyword.ofToken? query).map fun keyword => (keyword, words)
  | _ => none

def keyword? (c : Context) (content : List Text) : Option Keyword :=
  (c.command? content).map Prod.fst

theorem exists_of_command? {c : Context} {content words : List Text} {keyword : Keyword}
    (h : c.command? content = some (keyword, words)) :
    ∃ query, c.evaluateAll content = .ok (query :: words) ∧ ClassQuery.ofToken? query = none ∧
      Keyword.ofToken? query = some keyword := by
  unfold command? at h
  split at h
  · next query rest heval =>
    split at h
    · cases h
    · next hclass =>
      obtain ⟨k, hk, hpair⟩ := Option.map_eq_some_iff.mp h
      cases hpair
      exact ⟨query, heval, hclass, hk⟩
  · cases h

theorem plan_of_command? {c : Context} {content words : List Text} {keyword : Keyword}
    (h : c.command? content = some (keyword, words)) :
    c.plan content = c.perform keyword words := by
  obtain ⟨query, heval, hclass, hkeyword⟩ := exists_of_command? h
  simp only [plan, heval, dispatch, hclass, hkeyword]

/-- What an assignment that can be carried out has passed. -/
theorem assign_eq_ok {c : Context} {words : List Text} {plan : Plan}
    (h : c.assign words = .ok plan) :
    ∃ pairs, pairUp words = .ok pairs ∧ (∀ pair ∈ pairs, Name.isValid pair.1 = true) ∧
      plan = { context := c.withRegistry fun r => r.assignAll pairs } := by
  rw [assign] at h
  split at h
  · cases h
  · next pairs hpairs =>
    split at h
    · cases h
    · next hvalid =>
      cases h
      refine ⟨pairs, hpairs, ?_, rfl⟩
      intro pair hpair
      have hchecked := List.find?_eq_none.mp hvalid pair hpair
      simpa using hchecked

/-! ### Everything that a plan can be -/

/-- The class that the evaluated statement applies, if it starts with a class query. -/
def application? (c : Context) (content : List Text) : Option Text :=
  match c.evaluateAll content with
  | .ok (query :: _) => ClassQuery.ofToken? query
  | _ => none

/-- What a keyword can ask for. -/
inductive Performs (c : Context) : Keyword → Plan → Prop
  /-- Another registry, and at most one remark. -/
  | bookkeeping {keyword : Keyword} {registry : Registry} {remarks : List Remark}
      (hstyle : keyword ≠ .style) (hclass : keyword ≠ .classStyle) (hmodes : keyword ≠ .dyegest)
      (hremarks : remarks.length ≤ 1) :
      Performs c keyword { context := { c with registry }, remarks }
  /-- Declarations under the active collection. -/
  | declaring {keyword : Keyword} {selectors : List Text} {declarations : List (Text × Text)}
      (hkeyword : keyword = .style ∨ keyword = .classStyle) :
      Performs c keyword
        { context := c, edits := declareAll c.registry.active selectors declarations }
  | digesting : Performs c .dyegest
      { context := c.enableStrict.enableDyegest, remarks := [.dyegestEnabled] }

/-- What a statement that is carried out can ask for. -/
inductive Plans (c : Context) (content : List Text) : Plan → Prop
  | keyword {keyword : Keyword} {words : List Text} {plan : Plan}
      (hcommand : c.command? content = some (keyword, words))
      (hname : c.application? content = none) (h : c.Performs keyword plan) :
      Plans c content plan
  | application {name : Text} {targets : List Text} (hcommand : c.command? content = none)
      (hname : c.application? content = some name) :
      Plans c content (c.applyClass name targets)
  /-- A statement that is empty, or starts with nothing that is known. -/
  | idle {remarks : List Remark} (hcommand : c.command? content = none)
      (hname : c.application? content = none) (hremarks : remarks.length ≤ 1) :
      Plans c content { context := c, remarks }

theorem performs_of_style {c : Context} {keyword : Keyword} {words : List Text} {plan : Plan}
    (hkeyword : keyword = .style ∨ keyword = .classStyle) (h : c.style words = .ok plan) :
    c.Performs keyword plan := by
  cases words with
  | nil => cases h
  | cons list rest =>
    simp only [style] at h
    split at h
    · cases h
    · split at h
      · cases h
      · cases h
        exact .declaring hkeyword

theorem performs_of_perform {c : Context} {keyword : Keyword} {words : List Text} {plan : Plan}
    (h : c.perform keyword words = .ok plan) : c.Performs keyword plan := by
  cases keyword with
  | assign =>
    obtain ⟨pairs, -, -, rfl⟩ := assign_eq_ok h
    exact .bookkeeping (by decide) (by decide) (by decide) (Nat.zero_le 1)
  | assignDefault =>
    simp only [perform, assignDefaults] at h
    split at h
    · cases h
    · cases h
      exact .bookkeeping (by decide) (by decide) (by decide) (Nat.zero_le 1)
  | enter =>
    cases words with
    | nil => cases h
    | cons name others =>
      cases h
      exact .bookkeeping (by decide) (by decide) (by decide) (Nat.zero_le 1)
  | style => exact performs_of_style (Or.inl rfl) h
  | classStyle => exact performs_of_style (Or.inr rfl) h
  | importModule => cases h
  | exposeTo => cases h
  | exportTo => cases h
  | retag =>
    cases h
    refine .bookkeeping (by decide) (by decide) (by decide) ?_
    split <;> simp
  | dyegest =>
    cases h
    exact .digesting
  | version =>
    cases h
    refine .bookkeeping (by decide) (by decide) (by decide) ?_
    split <;> simp

/-- A keyword is no class query. -/
theorem application?_of_command? {c : Context} {content words : List Text} {keyword : Keyword}
    (h : c.command? content = some (keyword, words)) : c.application? content = none := by
  obtain ⟨query, heval, hclass, -⟩ := exists_of_command? h
  simp only [application?, heval, hclass]

/-- **Everything that a statement can ask for.** -/
theorem plans_of_plan {c : Context} {content : List Text} {plan : Plan}
    (h : c.plan content = .ok plan) : c.Plans content plan := by
  cases hcommand : c.command? content with
  | some command =>
    rw [plan_of_command? hcommand] at h
    exact .keyword hcommand (application?_of_command? hcommand) (performs_of_perform h)
  | none =>
    unfold Context.plan at h
    split at h
    · cases h
    · next hvalues =>
      cases h
      exact .idle hcommand (by simp [application?, hvalues]) (Nat.zero_le 1)
    · next query words hvalues =>
      have hname : c.application? content = ClassQuery.ofToken? query := by
        simp [application?, hvalues]
      unfold dispatch at h
      cases hclass : ClassQuery.ofToken? query with
      | some name =>
        rw [hclass] at h
        cases h
        exact .application hcommand (hname.trans hclass)
      | none =>
        have hkeyword : Keyword.ofToken? query = none := by
          simpa [command?, hvalues, hclass] using hcommand
        simp only [hclass, hkeyword] at h
        split at h
        · cases h
        · cases h
          exact .idle hcommand (hname.trans hclass) (Nat.le_refl 1)

theorem Plans.length_remarks_le {c : Context} {content : List Text} {plan : Plan}
    (h : c.Plans content plan) : plan.remarks.length ≤ 1 := by
  cases h with
  | keyword _ _ hperforms =>
    cases hperforms with
    | bookkeeping _ _ _ hremarks => exact hremarks
    | declaring => exact Nat.zero_le 1
    | digesting => exact Nat.le_refl 1
  | application => exact Nat.zero_le 1
  | idle _ _ hremarks => exact hremarks

theorem context_of_style {c : Context} {words : List Text} {plan : Plan}
    (h : c.style words = .ok plan) : plan.context = c := by
  cases performs_of_style (Or.inl rfl) h with
  | bookkeeping hstyle => exact absurd rfl hstyle
  | declaring => rfl

/-- Only a keyword changes the context. -/
theorem context_of_command?_eq_none {c : Context} {content : List Text} {plan : Plan}
    (h : c.command? content = none) (hplan : c.plan content = .ok plan) : plan.context = c := by
  cases plans_of_plan hplan with
  | keyword hcommand =>
    rw [h] at hcommand
    cases hcommand
  | application => rfl
  | idle => rfl

/-! ### The edits that statements ask for -/

theorem mem_of_pairUp {words : List Text} {pairs : List (Text × Text)}
    (h : pairUp words = .ok pairs) : ∀ pair ∈ pairs, pair.1 ∈ words ∧ pair.2 ∈ words := by
  fun_induction pairUp words generalizing pairs with
  | case1 =>
    cases h
    intro pair hpair
    cases hpair
  | case2 last => cases h
  | case3 => cases h
  | case4 name value rest later hlater ih =>
    cases h
    intro pair hpair
    rcases List.mem_cons.mp hpair with rfl | hpair
    · exact ⟨List.mem_cons_self, List.mem_cons_of_mem _ List.mem_cons_self⟩
    · have hmem := ih hlater pair hpair
      exact ⟨List.mem_cons_of_mem _ (List.mem_cons_of_mem _ hmem.1),
        List.mem_cons_of_mem _ (List.mem_cons_of_mem _ hmem.2)⟩

theorem mem_edits_of_style {c : Context} {words : List Text} {plan : Plan} {edit : Edit}
    (h : c.style words = .ok plan) (hedit : edit ∈ plan.edits) :
    ∃ list ∈ words, ∃ pairs, (∀ pair ∈ pairs, pair.1 ∈ words ∧ pair.2 ∈ words) ∧
      ∃ selector ∈ Text.items list, ∃ declaration ∈ declarations pairs,
        edit = .declare c.registry.active selector declaration.1 declaration.2 := by
  cases words with
  | nil => cases h
  | cons list rest =>
    simp only [style] at h
    split at h
    · cases h
    · cases hpairs : pairUp rest with
      | error last => simp [hpairs] at h
      | ok pairs =>
        rw [hpairs] at h
        cases h
        simp only [declareAll, List.mem_flatMap, List.mem_map] at hedit
        obtain ⟨declaration, hdeclaration, selector, hselector, rfl⟩ := hedit
        refine ⟨list, List.mem_cons_self, pairs, ?_, selector, hselector, declaration,
          hdeclaration, rfl⟩
        intro pair hpair
        have hmem := mem_of_pairUp hpairs pair hpair
        exact ⟨List.mem_cons_of_mem _ hmem.1, List.mem_cons_of_mem _ hmem.2⟩

theorem edits_of_perform {c : Context} {keyword : Keyword} {words : List Text} {plan : Plan}
    (h : c.perform keyword words = .ok plan) :
    plan.edits = [] ∨ c.style words = .ok plan := by
  cases performs_of_perform h with
  | bookkeeping => exact Or.inl rfl
  | declaring hkeyword =>
    rcases hkeyword with rfl | rfl
    · exact Or.inr h
    · exact Or.inr h
  | digesting => exact Or.inl rfl

/-- Every edit that a statement asks for either declares a property under an item of a comma
    list, or copies a class onto the selectors of a target.  The lists, the values and the
    target are words of the evaluated statement. -/
theorem mem_edits_of_plan {c : Context} {content : List Text} {plan : Plan} {edit : Edit}
    (h : c.plan content = .ok plan) (hedit : edit ∈ plan.edits) :
    ∃ query words, c.evaluateAll content = .ok (query :: words) ∧
      ((∃ list ∈ words, ∃ pairs, (∀ pair ∈ pairs, pair.1 ∈ words ∧ pair.2 ∈ words) ∧
        ∃ selector ∈ Text.items list, ∃ declaration ∈ declarations pairs,
          edit = .declare c.registry.active selector declaration.1 declaration.2) ∨
      ∃ target ∈ words, ∃ name, edit = .copyClass (targetSelectors target) name) := by
  unfold Context.plan at h
  split at h
  · cases h
  · cases h
    cases hedit
  · next query words hvalues =>
    refine ⟨query, words, hvalues, ?_⟩
    unfold dispatch at h
    cases hclass : ClassQuery.ofToken? query with
    | some name =>
      rw [hclass] at h
      cases h
      obtain ⟨target, htarget, rfl⟩ := List.mem_map.mp hedit
      exact Or.inr ⟨target, htarget, name, rfl⟩
    | none =>
      cases hkeyword : Keyword.ofToken? query with
      | some keyword =>
        simp only [hclass, hkeyword] at h
        rcases edits_of_perform h with hnone | hstyle
        · rw [hnone] at hedit
          cases hedit
        · exact Or.inl (mem_edits_of_style hstyle hedit)
      | none =>
        simp only [hclass, hkeyword] at h
        split at h
        · cases h
        · cases h
          cases hedit

end Context

/-! ### Following a plan -/

namespace State

def follow (s : State) (plan : Plan) : State :=
  { context := plan.context, sheet := s.sheet.applyAll plan.edits }

def remarks (s : State) (plan : Plan) : List Remark :=
  plan.remarks ++ (s.sheet.lacking plan.edits).map Remark.undefinedClass

end State

namespace Progress

def follow (p : Progress) (plan : Plan) : Progress :=
  { state := p.state.follow plan, remarks := p.remarks ++ (p.state.remarks plan).toArray }

/-- How the work on a statement ends: with a fault nothing has been done, else the plan has
    been followed. -/
def settle (p : Progress) : Except Fault Plan → EStateM.Result Fault Progress Unit
  | .error fault => .error fault p
  | .ok plan => .ok () (p.follow plan)

theorem foldl_edit (p : Progress) (edits : List Edit) :
    edits.foldl Progress.edit p = p.follow { context := p.state.context, edits } := by
  induction edits generalizing p with
  | nil => simp [follow, State.follow, State.remarks, Sheet.applyAll, Sheet.lacking]
  | cons edit rest ih =>
    obtain ⟨⟨context, sheet⟩, remarks⟩ := p
    rw [List.foldl_cons, ih, Progress.edit]
    cases h : sheet.lacks? edit with
    | none => simp [follow, State.follow, State.remarks, Sheet.applyAll, Sheet.lacking, h]
    | some name => simp [follow, State.follow, State.remarks, Sheet.applyAll, Sheet.lacking, h]

theorem follow_of_edits_nil (p : Progress) (context : Context) (remarks : List Remark) :
    p.follow { context, remarks } =
      { state := { p.state with context }, remarks := p.remarks ++ remarks.toArray } := by
  simp [follow, State.follow, State.remarks, Sheet.applyAll, Sheet.lacking]

end Progress

namespace Action

/-! ### Loops -/

theorem run_forM_modify {α : Type} (f : α → Progress → Progress) (items : List α)
    (p : Progress) :
    EStateM.run (items.forM fun item => modify (f item) : Action Unit) p =
      .ok () (items.foldl (fun p item => f item p) p) := by
  induction items generalizing p with
  | nil => rfl
  | cons item rest ih => exact ih (f item p)

theorem run_forM_withRegistry {α : Type} (f : Registry → α → Registry) (items : List α)
    (p : Progress) :
    (items.forM fun item => withRegistry fun r => f r item).run p =
      .ok () (p.withContext fun c => c.withRegistry fun r => items.foldl f r) := by
  induction items generalizing p with
  | nil => rfl
  | cons item rest ih => exact ih _

/-- A loop of checks stops at the first item that does not pass, and writes nothing. -/
theorem run_forM_check {α : Type} (ok : α → Bool) (fault : α → Fault) (items : List α)
    (p : Progress) :
    EStateM.run (items.forM fun item => do unless ok item do throw (fault item) : Action Unit) p =
      match items.find? fun item => !ok item with
      | some item => .error (fault item) p
      | none => .ok () p := by
  induction items with
  | nil => rfl
  | cons item rest ih =>
    change EStateM.run ((do unless ok item do throw (fault item)) >>= fun _ => rest.forM _) p = _
    cases h : ok item with
    | false => simp [h]
    | true => simpa [h] using ih

/-! ### The handlers -/

theorem run_pairs (misfit : Text → Misfit) (words : List Text) (p : Progress) :
    (pairs misfit words).run p =
      match pairUp words with
      | .ok pairs => .ok pairs p
      | .error last => .error (.misfit (misfit last)) p := by
  unfold pairs
  cases pairUp words <;> rfl

theorem run_assign (words : List Text) (p : Progress) :
    (assign words).run p = p.settle (p.state.context.assign words) := by
  rw [assign, EStateM.run_bind, run_pairs, Context.assign]
  cases pairUp words with
  | error last => rfl
  | ok pairs =>
    simp only [EStateM.run_bind, run_forM_check (fun pair : Text × Text => Name.isValid pair.1)]
    cases pairs.find? fun pair => !Name.isValid pair.1 with
    | some pair => rfl
    | none =>
      simp only [run_forM_withRegistry (fun r (pair : Text × Text) =>
        r.updateActive fun c => c.assign pair.1 pair.2)]
      simp [Progress.settle, Progress.follow_of_edits_nil, Progress.withContext,
        Registry.assignAll]

theorem run_assignDefaults (words : List Text) (p : Progress) :
    (assignDefaults words).run p = p.settle (p.state.context.assignDefaults words) := by
  rw [assignDefaults, EStateM.run_bind, run_pairs, Context.assignDefaults]
  cases pairUp words with
  | error last => rfl
  | ok pairs =>
    simp only [run_forM_withRegistry (fun r (pair : Text × Text) =>
      r.updateActive fun c => c.assignDefault pair.1 pair.2)]
    simp [Progress.settle, Progress.follow_of_edits_nil, Progress.withContext,
      Registry.assignDefaults]

theorem run_enter (words : List Text) (p : Progress) :
    (enter words).run p = p.settle (p.state.context.enter words) := by
  cases words with
  | nil => rfl
  | cons name others =>
    rw [enter, EStateM.run_bind]
    change EStateM.run (others.forM fun other => withRegistry fun r => r.load other)
      (p.withContext fun c => c.withRegistry fun r => r.activate name) = _
    rw [run_forM_withRegistry Registry.load]
    simp [Context.enter, Progress.settle, Progress.follow_of_edits_nil, Progress.withContext,
      Context.withRegistry, Registry.loadAll]

theorem run_retag (words : List Text) (p : Progress) :
    (retag words).run p = p.settle (.ok (p.state.context.retag words)) := by
  unfold retag Context.retag
  dsimp only
  generalize words.headD (Route.tag .implicit) = tag
  cases h : (Route.ofTag? tag).isSome with
  | false =>
    simp [Progress.settle, Progress.follow_of_edits_nil, withRegistry, withContext, remark,
      Progress.withContext, Progress.remark]
  | true =>
    simp [Progress.settle, Progress.follow_of_edits_nil, withRegistry, withContext,
      Progress.withContext]

/-- One declaration makes its edits; what it is routed by is not among the things it writes. -/
theorem run_declare (selectors : List Text) (property value : Text) (p : Progress) :
    (declare selectors property value).run p =
      .ok () ((selectors.map fun selector => Edit.declare p.state.context.registry.active
        selector property value).foldl Progress.edit p) := by
  rw [List.foldl_map]
  exact run_forM_modify (fun selector p' => p'.edit
    (.declare p.state.context.registry.active selector property value)) selectors p

theorem run_forM_declare (selectors : List Text) (declarations : List (Text × Text))
    (p : Progress) :
    (declarations.forM fun declaration =>
        declare selectors declaration.1 declaration.2).run p =
      .ok () ((declareAll p.state.context.registry.active selectors declarations).foldl
        Progress.edit p) := by
  induction declarations generalizing p with
  | nil => rfl
  | cons declaration rest ih =>
    change EStateM.run (declare selectors declaration.1 declaration.2 >>= fun _ =>
      rest.forM _) p = _
    rw [EStateM.run_bind, run_declare]
    simp only [ih, declareAll, List.flatMap_cons, List.foldl_append]
    rw [Progress.foldl_edit p]
    rfl

theorem run_style (words : List Text) (p : Progress) :
    (style words).run p = p.settle (p.state.context.style words) := by
  cases words with
  | nil => rfl
  | cons list rest =>
    simp only [style, Context.style]
    by_cases h : (Text.items list).isEmpty
    · rw [if_pos h, if_pos h]
      rfl
    · rw [if_neg h, if_neg h, EStateM.run_bind, run_pairs]
      cases pairUp rest with
      | error last => rfl
      | ok pairs => simp only [run_forM_declare, Progress.foldl_edit, Progress.settle]

theorem run_applyClass (name : Text) (targets : List Text) (p : Progress) :
    (applyClass name targets).run p = p.settle (.ok (p.state.context.applyClass name targets)) := by
  have hloop := run_forM_modify
    (fun target p' => p'.edit (.copyClass (targetSelectors target) name)) targets p
  rw [Context.applyClass, Progress.settle, ← Progress.foldl_edit, List.foldl_map]
  exact hloop

theorem run_checkVersion (words : List Text) (p : Progress) :
    (checkVersion words).run p = p.settle (.ok (p.state.context.checkVersion words)) := by
  unfold checkVersion Context.checkVersion
  by_cases h : words.head? = some languageVersion
  · simp [h, Progress.settle, Progress.follow_of_edits_nil]
  · simp [h, Progress.settle, Progress.follow_of_edits_nil, remark, Progress.remark]

theorem run_enableDyegest (p : Progress) :
    enableDyegest.run p = p.settle (.ok { context := p.state.context.enableStrict.enableDyegest
                                          remarks := [.dyegestEnabled] }) := by
  simp [enableDyegest, Progress.settle, Progress.follow_of_edits_nil, withContext, remark,
    Progress.withContext, Progress.remark]

/-! ### Statements -/

theorem run_perform (keyword : Keyword) (words : List Text) (p : Progress) :
    (perform keyword words).run p = p.settle (p.state.context.perform keyword words) := by
  cases keyword with
  | assign => exact run_assign words p
  | assignDefault => exact run_assignDefaults words p
  | enter => exact run_enter words p
  | style => exact run_style words p
  | classStyle => exact run_style words p
  | importModule => rfl
  | exposeTo => rfl
  | exportTo => rfl
  | retag => exact run_retag words p
  | dyegest => exact run_enableDyegest p
  | version => exact run_checkVersion words p

theorem run_dispatch (query : Text) (words : List Text) (p : Progress) :
    (dispatch query words).run p = p.settle (p.state.context.dispatch query words) := by
  unfold dispatch Context.dispatch
  cases ClassQuery.ofToken? query with
  | some name => exact run_applyClass name words p
  | none =>
    cases Keyword.ofToken? query with
    | some keyword => exact run_perform keyword words p
    | none =>
      cases h : p.state.context.modes.strict with
      | true => simp [context, h, Progress.settle]
      | false =>
        simp [context, h, remark, Progress.settle, Progress.follow_of_edits_nil, Progress.remark]

theorem run_evaluateAll (tokens : List Text) (p : Progress) :
    (evaluateAll tokens).run p =
      match p.state.context.evaluateAll tokens with
      | .ok values => .ok values p
      | .error fault => .error fault p := by
  simp only [evaluateAll, context, EStateM.run_bind, EStateM.run_get, EStateM.run_pure]
  cases p.state.context.evaluateAll tokens <;> rfl

/-- **Carrying out a statement is working it out and then following the plan.**  A statement
    with a fault stops before its first write. -/
theorem run_execute (content : List Text) (p : Progress) :
    (execute content).run p = p.settle (p.state.context.plan content) := by
  rw [execute, EStateM.run_bind, run_evaluateAll, Context.plan]
  cases p.state.context.evaluateAll content with
  | error fault => rfl
  | ok values =>
    cases values with
    | nil => simp [Progress.settle, Progress.follow_of_edits_nil]
    | cons query words => exact run_dispatch query words p

end Action

theorem State.interpret_eq (file : Option Text) (s : State) (statement : Statement) :
    s.interpret file statement =
      match s.context.plan statement.content with
      | .error fault => { state := s, events := [fault.event file statement.index] }
      | .ok plan =>
        { state := s.follow plan
          events := (s.remarks plan).map fun remark => remark.event file statement.index } := by
  rw [State.interpret, Action.run_execute]
  cases s.context.plan statement.content with
  | error fault => rfl
  | ok plan => simp [Progress.settle, Progress.follow, Progress.run]

/-- **Everything that a statement can do to a state**: nothing, or what it asks for. -/
theorem State.interpret_cases (file : Option Text) (s : State) (statement : Statement) :
    (s.interpret file statement).state = s ∨
      ∃ plan, s.context.Plans statement.content plan ∧
        (s.interpret file statement).state = s.follow plan := by
  rw [State.interpret_eq]
  cases h : s.context.plan statement.content with
  | error fault => exact Or.inl rfl
  | ok plan => exact Or.inr ⟨plan, Context.plans_of_plan h, rfl⟩

end Dyehouse
