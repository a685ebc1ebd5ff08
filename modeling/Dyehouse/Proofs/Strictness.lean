import Dyehouse.Proofs.Sheet

/-!
# Strict mode only adds errors

Strict mode makes errors of two things that are let through otherwise: a reference to nothing,
and a statement that starts with no keyword.  Nothing else looks at it.  A strict run in which
neither comes up is therefore, statement by statement, the run outside strict mode.

A statement may turn strict mode on in the middle of the run that started outside it.  The two
runs are compared by an equation that allows for that: at every point the context of the strict
run is `Context.enableStrict` of the context of the other.
-/

namespace Dyehouse

/-- Whether the fault is one that only strict mode finds. -/
def Fault.isStrict : Fault → Bool
  | unresolved _ | unknown _ => true
  | misfit _ | invalidName _ | unsupported _ | described _ => false

/-! ### Evaluation -/

namespace Context

theorem evaluate_of_enableStrict {c : Context} {token value : Text}
    (h : c.enableStrict.evaluate token = .ok value) : c.evaluate token = .ok value := by
  unfold evaluate at h ⊢
  cases href : Reference.ofToken? token with
  | none =>
    rw [href] at h
    exact h
  | some r =>
    simp only [href, enableStrict] at h ⊢
    cases hget : c.registry.get? r.name with
    | some found =>
      rw [hget] at h
      exact h
    | none =>
      rw [hget] at h
      cases h

theorem evaluateAll_of_enableStrict {c : Context} {tokens values : List Text}
    (h : c.enableStrict.evaluateAll tokens = .ok values) : c.evaluateAll tokens = .ok values := by
  induction tokens generalizing values with
  | nil => exact h
  | cons token rest ih =>
    rw [evaluateAll] at h
    cases hfirst : c.enableStrict.evaluate token with
    | error fault => simp [hfirst] at h
    | ok value =>
      cases hrest : c.enableStrict.evaluateAll rest with
      | error fault => simp [hfirst, hrest] at h
      | ok others =>
        simp only [hfirst, hrest] at h
        rw [evaluateAll, evaluate_of_enableStrict hfirst, ih hrest]
        exact h

theorem isStrict_of_evaluate {c : Context} {token : Text} {fault : Fault}
    (h : c.evaluate token = .error fault) : fault.isStrict = true := by
  unfold evaluate at h
  split at h
  · cases h
  · split at h
    · cases h
    · split at h
      · cases h
        rfl
      · cases h

/-- Evaluation fails for no other reason than strict mode. -/
theorem isStrict_of_evaluateAll {c : Context} {tokens : List Text} {fault : Fault}
    (h : c.evaluateAll tokens = .error fault) : fault.isStrict = true := by
  induction tokens with
  | nil => cases h
  | cons token rest ih =>
    rw [evaluateAll] at h
    cases hfirst : c.evaluate token with
    | error first =>
      simp only [hfirst, Except.error.injEq] at h
      subst h
      exact isStrict_of_evaluate hfirst
    | ok value =>
      cases hrest : c.evaluateAll rest with
      | error later =>
        simp only [hfirst, hrest, Except.error.injEq] at h
        subst h
        exact ih hrest
      | ok others => simp [hfirst, hrest] at h

end Context

/-! ### What a statement asks for -/

/-- The plan for a run that is in strict mode afterwards. -/
def Plan.enableStrict (plan : Plan) : Plan :=
  { plan with context := plan.context.enableStrict }

namespace Context

/-- No handler looks at the mode. -/
theorem perform_enableStrict (c : Context) (keyword : Keyword) (words : List Text) :
    c.enableStrict.perform keyword words = (c.perform keyword words).map Plan.enableStrict := by
  have hstyle : c.enableStrict.style words = (c.style words).map Plan.enableStrict := by
    cases words with
    | nil => rfl
    | cons list rest =>
      simp only [style]
      split
      · rfl
      · cases pairUp rest <;> rfl
  cases keyword with
  | assign =>
    simp only [perform, assign]
    cases pairUp words with
    | error last => rfl
    | ok pairs =>
      dsimp only
      cases pairs.find? fun pair => !Name.isValid pair.1 <;> rfl
  | assignDefault =>
    simp only [perform, assignDefaults]
    cases pairUp words <;> rfl
  | enter => cases words <;> rfl
  | style => exact hstyle
  | classStyle => exact hstyle
  | importModule => rfl
  | exposeTo => rfl
  | exportTo => rfl
  | retag => rfl
  | dyegest => rfl
  | version => rfl

theorem dispatch_enableStrict {c : Context} {query : Text} {words : List Text}
    (h : ∀ fault, c.enableStrict.dispatch query words = .error fault → fault.isStrict = false) :
    c.enableStrict.dispatch query words = (c.dispatch query words).map Plan.enableStrict := by
  unfold dispatch at h ⊢
  cases hclass : ClassQuery.ofToken? query with
  | some name => rfl
  | none =>
    cases hkeyword : Keyword.ofToken? query with
    | some keyword => exact perform_enableStrict c keyword words
    | none =>
      -- the strict context fails here, with a fault that is ruled out
      rw [hclass, hkeyword] at h
      cases h (.unknown query) rfl

/-- **Strict mode changes what a statement asks for only by failing.** -/
theorem plan_enableStrict {c : Context} {content : List Text}
    (h : ∀ fault, c.enableStrict.plan content = .error fault → fault.isStrict = false) :
    c.enableStrict.plan content = (c.plan content).map Plan.enableStrict := by
  unfold plan at h ⊢
  cases heval : c.enableStrict.evaluateAll content with
  | error fault =>
    rw [heval] at h
    have hlax := h fault rfl
    rw [isStrict_of_evaluateAll heval] at hlax
    cases hlax
  | ok values =>
    rw [heval] at h
    rw [evaluateAll_of_enableStrict heval]
    cases values with
    | nil => rfl
    | cons query words => exact dispatch_enableStrict h

end Context

/-! ### Runs -/

namespace State

def enableStrict (s : State) : State :=
  { s with context := s.context.enableStrict }

/-- The fault that a statement fails with in this state, if it fails. -/
def fault? (s : State) (statement : Statement) : Option Fault :=
  match (Action.execute statement.content).run { state := s } with
  | .ok _ _ => none
  | .error fault _ => some fault

/-- Whether a statement fails in this state for the sake of strict mode: it refers to nothing,
    or starts with no keyword. -/
def failsStrictly (s : State) (statement : Statement) : Bool :=
  (s.fault? statement).any Fault.isStrict

theorem fault?_of_plan {s : State} {statement : Statement} {fault : Fault}
    (h : s.context.plan statement.content = .error fault) : s.fault? statement = some fault := by
  rw [fault?, Action.run_execute, h]
  rfl

theorem interpret_enableStrict (file : Option Text) {s : State} {statement : Statement}
    (h : s.enableStrict.failsStrictly statement = false) :
    (s.enableStrict.interpret file statement).state =
        (s.interpret file statement).state.enableStrict ∧
      (s.enableStrict.interpret file statement).events = (s.interpret file statement).events := by
  have hplan : s.enableStrict.context.plan statement.content =
      (s.context.plan statement.content).map Plan.enableStrict := by
    apply Context.plan_enableStrict
    intro fault hfault
    rw [failsStrictly, fault?_of_plan hfault] at h
    exact h
  rw [interpret_eq, interpret_eq, hplan]
  cases s.context.plan statement.content with
  | error fault => exact ⟨rfl, rfl⟩
  | ok plan => exact ⟨rfl, rfl⟩

end State

namespace Run

variable (file : Option Text)

/-- **The two runs go in step.** -/
theorem statements_enableStrict (start : State) {statements : List Statement}
    (h : ∀ v ∈ visits file start.enableStrict statements, v.1.failsStrictly v.2 = false) :
    (Run.statements file start.enableStrict statements).state =
        (Run.statements file start statements).state.enableStrict ∧
      (Run.statements file start.enableStrict statements).events =
        (Run.statements file start statements).events := by
  induction statements generalizing start with
  | nil => exact ⟨rfl, rfl⟩
  | cons statement rest ih =>
    rw [visits, List.forall_mem_cons] at h
    obtain ⟨hstep, hlater⟩ := h
    obtain ⟨hstate, hevents⟩ := State.interpret_enableStrict file hstep
    rw [hstate] at hlater
    obtain ⟨hend, hheard⟩ := ih (start.interpret file statement).state hlater
    simp only [Run.statements, hstate, hevents, hend, hheard, and_self]

end Run

/-- **Strict mode never changes what a source means.**  If in the strict run no statement fails
    for referring to nothing or for starting with no keyword, then the strict run and the run
    outside strict mode have the same sheet and the same collections and scope after every
    prefix of the statements, and end with the same diagnostics, the same digested flag and the
    same stylesheet, plain and minified. -/
theorem strict_mode_only_adds_errors (file : Option Text) (statements : List Statement)
    (h : ∀ v ∈ Run.visits file { context := { modes := { strict := true } } } statements,
      v.1.failsStrictly v.2 = false) :
    let strict := Compilation.interpret { strict := true, sourceName := file }
    let lax := Compilation.interpret { strict := false, sourceName := file }
    (∀ n, (strict (statements.take n)).state.sheet = (lax (statements.take n)).state.sheet ∧
      (strict (statements.take n)).state.context.registry =
        (lax (statements.take n)).state.context.registry) ∧
    (strict statements).events = (lax statements).events ∧
    (strict statements).log = (lax statements).log ∧
    (strict statements).state.context.modes.dyegest =
      (lax statements).state.context.modes.dyegest ∧
    ∀ minify, ∃ css,
      Compilation.ofStatements { minify, strict := true, sourceName := file } statements =
        .ok { css, run := strict statements } ∧
      Compilation.ofStatements { minify, strict := false, sourceName := file } statements =
        .ok { css, run := lax statements } := by
  intro strict lax
  have hbefore : ∀ n, (strict (statements.take n)).state =
        (lax (statements.take n)).state.enableStrict ∧
      (strict (statements.take n)).events = (lax (statements.take n)).events := by
    intro n
    apply Run.statements_enableStrict file {}
    intro v hv
    apply h v
    rw [← List.take_append_drop n statements, Run.visits_append]
    exact List.mem_append_left _ hv
  have hwhole := hbefore statements.length
  rw [List.take_length] at hwhole
  obtain ⟨hstate, hevents⟩ := hwhole
  refine ⟨?_, hevents, congrArg Event.log hevents, ?_, ?_⟩
  · intro n
    rw [(hbefore n).1]
    exact ⟨rfl, rfl⟩
  · rw [hstate]
    rfl
  · intro minify
    have hfilled : (lax statements).state.sheet.Filled :=
      Run.filled_statements file { strict := false } statements
    obtain ⟨css, hcss⟩ := hfilled.render minify
    have hsheet : (strict statements).state.sheet = (lax statements).state.sheet := by
      rw [hstate]
      rfl
    exact ⟨css, Compilation.ofStatements_of_render (hsheet ▸ hcss),
      Compilation.ofStatements_of_render hcss⟩

/-- A source that turns strict mode on in the middle, and in which one statement fails for a
    reason that has nothing to do with the mode. -/
theorem strict_mode_only_adds_errors_digested :
    let statements : List Statement :=
      [{ content := ["@".toList, "a".toList, "1px".toList], index := some 1 },
       { content := ["$".toList, ".x".toList, "top".toList, "&a".toList], index := some 2 },
       { content := ["!dyegest".toList], index := some 3 },
       { content := ["@".toList, "9b".toList, "2".toList], index := some 4 },
       { content := ["$x".toList, ".y".toList], index := some 5 }]
    let strict := Compilation.interpret { strict := true }
    let lax := Compilation.interpret { strict := false }
    (∀ v ∈ Run.visits none { context := { modes := { strict := true } } } statements,
      v.1.failsStrictly v.2 = false) ∧
    (lax (statements.take 2)).state.context.modes.strict = false ∧
    (lax statements).state.context.modes.strict = true ∧
    (∃ d ∈ (strict statements).log, d.isError = true) ∧
    (strict (statements.take 2)).state.sheet = (lax (statements.take 2)).state.sheet ∧
    (strict statements).log = (lax statements).log ∧
    ∃ css, Compilation.ofStatements { minify := true, strict := true } statements =
        .ok { css, run := strict statements } ∧
      Compilation.ofStatements { minify := true, strict := false } statements =
        .ok { css, run := lax statements } := by
  intro statements strict lax
  have hfaults : ∀ v ∈ Run.visits none { context := { modes := { strict := true } } } statements,
      v.1.failsStrictly v.2 = false := by decide +kernel
  have herror : ∃ d ∈ (strict statements).log, d.isError = true := by decide +kernel
  obtain ⟨hbefore, -, hlog, -, hcss⟩ := strict_mode_only_adds_errors none statements hfaults
  exact ⟨hfaults, by decide +kernel, by decide +kernel, herror, (hbefore 2).1, hlog, hcss true⟩

end Dyehouse
