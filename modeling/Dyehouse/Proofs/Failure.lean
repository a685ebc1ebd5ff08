import Dyehouse.Proofs.Run
import Dyehouse.Sheet.Css

/-!
# Statements that fail leave no trace

A statement that records an error has recorded nothing else and has changed nothing.  Over a
whole run this means that failed statements can be deleted from the source, and with them the
statements that only compare versions and those that are passed over: every other statement
then meets the state that it met before.

The run with deletions is shorter than the run it is compared with, so the two are compared
by their *visits*: the statements in order, each with the state that it meets.
-/

namespace Dyehouse

/-! ### What is recorded of one statement -/

theorem Event.log_fault (file : Option Text) (index : Option Int) (fault : Fault) :
    ∃ d : Diagnostic, d.isError = true ∧ log [fault.event file index] = [d] :=
  ⟨_, rfl, rfl⟩

/-- Whatever a statement that is carried out has to say, it is not an error. -/
theorem Remark.not_isError {file : Option Text} {index : Option Int} {remark : Remark}
    {d : Diagnostic} (h : (remark.event file index).diagnostic? = some d) :
    d.isError = false := by
  cases remark with
  | unknownTag tag => cases h; rfl
  | otherVersion version => cases h; rfl
  | dyegestEnabled => cases h; rfl
  | ignored keyword => cases h
  | undefinedClass name => cases h

namespace State

/-- Whether the statement fails in this state: an error is recorded for it. -/
def fails (file : Option Text) (s : State) (statement : Statement) : Bool :=
  (s.interpret file statement).log.any Diagnostic.isError

theorem fails_iff {file : Option Text} {s : State} {statement : Statement} :
    s.fails file statement = true ↔ ∃ fault, s.context.plan statement.content = .error fault := by
  rw [fails, interpret_eq, List.any_eq_true]
  cases h : s.context.plan statement.content with
  | error fault =>
    obtain ⟨d, hd, hlog⟩ := Event.log_fault file statement.index fault
    constructor
    · intro _
      exact ⟨fault, rfl⟩
    · intro _
      refine ⟨d, ?_, hd⟩
      change d ∈ Event.log _
      rw [hlog]
      exact List.mem_singleton.mpr rfl
  | ok plan =>
    constructor
    · rintro ⟨d, hmem, herror⟩
      simp only [Run.log, Event.log, List.mem_filterMap, List.mem_map] at hmem
      obtain ⟨event, ⟨remark, _, rfl⟩, hd⟩ := hmem
      rw [Remark.not_isError hd] at herror
      cases herror
    · rintro ⟨fault, hfault⟩
      cases hfault

theorem interpret_of_fails {file : Option Text} {s : State} {statement : Statement}
    (h : s.fails file statement = true) :
    (s.interpret file statement).state = s ∧
      ∃ d : Diagnostic, d.isError = true ∧ (s.interpret file statement).log = [d] := by
  obtain ⟨fault, hfault⟩ := fails_iff.mp h
  rw [interpret_eq, hfault]
  exact ⟨rfl, Event.log_fault file statement.index fault⟩

end State

/-! ### Statements that ask for nothing -/

namespace Context

/-- Whether the statement is passed over: outside strict mode, and the evaluated statement
    starts with neither a class query nor a keyword. -/
def ignores (c : Context) (content : List Text) : Bool :=
  match c.evaluateAll content with
  | .ok (query :: _) =>
    !c.modes.strict && (ClassQuery.ofToken? query).isNone && (Keyword.ofToken? query).isNone
  | _ => false

def comparesVersions (c : Context) (content : List Text) : Bool :=
  (c.command? content).map Prod.fst = some .version

theorem plan_of_comparesVersions {c : Context} {content : List Text}
    (h : c.comparesVersions content = true) :
    ∃ remarks, c.plan content = .ok { context := c, remarks } := by
  simp only [comparesVersions, decide_eq_true_eq] at h
  obtain ⟨⟨keyword, words⟩, hcommand, hversion⟩ := Option.map_eq_some_iff.mp h
  cases hversion
  exact ⟨(c.checkVersion words).remarks, plan_of_command? hcommand⟩

theorem plan_of_ignores {c : Context} {content : List Text} (h : c.ignores content = true) :
    ∃ remarks, c.plan content = .ok { context := c, remarks } := by
  unfold ignores at h
  split at h
  · next query words heval =>
    simp only [Bool.and_eq_true, Bool.not_eq_true', Option.isNone_iff_eq_none] at h
    obtain ⟨⟨hstrict, hclass⟩, hkeyword⟩ := h
    refine ⟨[.ignored query], ?_⟩
    simp [plan, heval, dispatch, hclass, hkeyword, hstrict]
  · cases h

end Context

theorem State.interpret_of_plan_remarks {file : Option Text} {s : State} {statement : Statement}
    {remarks : List Remark}
    (h : s.context.plan statement.content = .ok { context := s.context, remarks }) :
    (s.interpret file statement).state = s := by
  rw [interpret_eq, h]
  rfl

/-- Whether the statement is one of those that can be deleted where it stands: it fails, it
    compares versions, or it is passed over. -/
def State.discards (file : Option Text) (s : State) (statement : Statement) : Bool :=
  s.fails file statement || s.context.comparesVersions statement.content ||
    s.context.ignores statement.content

theorem State.interpret_of_discards {file : Option Text} {s : State} {statement : Statement}
    (h : s.discards file statement = true) : (s.interpret file statement).state = s := by
  simp only [discards, Bool.or_eq_true] at h
  rcases h with (hfails | hversion) | hignores
  · exact (interpret_of_fails hfails).1
  · obtain ⟨remarks, hplan⟩ := Context.plan_of_comparesVersions hversion
    exact interpret_of_plan_remarks hplan
  · obtain ⟨remarks, hplan⟩ := Context.plan_of_ignores hignores
    exact interpret_of_plan_remarks hplan

/-! ### Runs with deletions -/

namespace Run

variable (file : Option Text)

/-- The visits of a run that are left when statements are deleted where they stand. -/
def keptVisits (drop : State → Statement → Bool) (start : State) (statements : List Statement) :
    List (State × Statement) :=
  (visits file start statements).filter fun v => !drop v.1 v.2

/-- **The two runs go in step.**  If only statements that change nothing are deleted, the
    statements that are left meet the states that they met before, and the run ends as it
    ended before. -/
theorem statements_keptVisits {drop : State → Statement → Bool}
    (hdrop : ∀ s statement, drop s statement = true → (s.interpret file statement).state = s)
    (start : State) (statements : List Statement) :
    let kept := keptVisits file drop start statements
    visits file start (kept.map Prod.snd) = kept ∧
      (Run.statements file start (kept.map Prod.snd)).state =
        (Run.statements file start statements).state := by
  induction statements generalizing start with
  | nil => exact ⟨rfl, rfl⟩
  | cons statement rest ih =>
    cases h : drop start statement with
    | true =>
      -- the statement is deleted, and the rest goes on from where it stood
      have hstate := hdrop start statement h
      have hkept : keptVisits file drop start (statement :: rest) =
          keptVisits file drop start rest := by
        simp [keptVisits, visits, h, hstate]
      have hend : (Run.statements file start (statement :: rest)).state =
          (Run.statements file start rest).state := by
        simp [Run.statements, hstate]
      rw [hkept, hend]
      exact ih start
    | false =>
      have hkept : keptVisits file drop start (statement :: rest) =
          (start, statement) ::
            keptVisits file drop (start.interpret file statement).state rest := by
        simp [keptVisits, visits, h]
      obtain ⟨hvisits, hend⟩ := ih (start.interpret file statement).state
      rw [hkept]
      refine ⟨?_, ?_⟩
      · simp only [List.map_cons, visits, hvisits]
      · simp only [List.map_cons, Run.statements, hend]

end Run

/-- **Failure is atomic.**  A statement for which an error is recorded has that one error as
    its whole log and leaves the state exactly as it was.  And if from any run the statements
    that fail, compare versions or are passed over are deleted, the run ends in the same
    state and with the same stylesheet, and the log is the old one without the entries of the
    deleted statements. -/
theorem failure_leaves_no_trace :
    (∀ (file : Option Text) (s : State) (statement : Statement),
      (∃ d ∈ (s.interpret file statement).log, d.isError = true) →
      (s.interpret file statement).state = s ∧
        ∃ d : Diagnostic, d.isError = true ∧ (s.interpret file statement).log = [d]) ∧
    ∀ (file : Option Text) (start : State) (statements : List Statement),
      let visits := Run.visits file start statements
      let kept := visits.filter fun v => !v.1.discards file v.2
      let whole := Run.statements file start statements
      let left := Run.statements file start (kept.map Prod.snd)
      visits.map Prod.snd = statements ∧
      left.state = whole.state ∧
      (∀ minify, left.state.sheet.render minify = whole.state.sheet.render minify) ∧
      whole.log = visits.flatMap (fun v => (v.1.interpret file v.2).log) ∧
      left.log = kept.flatMap fun v => (v.1.interpret file v.2).log := by
  constructor
  · rintro file s statement ⟨d, hmem, herror⟩
    exact State.interpret_of_fails (List.any_eq_true.mpr ⟨d, hmem, herror⟩)
  · intro file start statements visits kept whole left
    obtain ⟨hvisits, hend⟩ := Run.statements_keptVisits file
      (fun s statement => State.interpret_of_discards) start statements
    refine ⟨Run.map_snd_visits file start statements, hend, ?_,
      Run.log_statements file start statements, ?_⟩
    · intro minify
      exact congrArg (fun s : State => s.sheet.render minify) hend
    · rw [Run.log_statements]
      exact congrArg _ hvisits

/-- A statement that gives one variable a value and then names another wrongly: the value
    that was in order is not given either. -/
theorem failure_leaves_no_trace_half_valid :
    let statement : Statement :=
      { content := ["@".toList, "a".toList, "1".toList, "9b".toList, "2".toList] }
    let run := ({} : State).interpret none statement
    (∃ d ∈ run.log, d.isError = true) ∧
      run.state = {} ∧ ∃ d : Diagnostic, d.isError = true ∧ run.log = [d] := by
  intro statement run
  have herror : ∃ d ∈ run.log, d.isError = true := by decide +kernel
  exact ⟨herror, failure_leaves_no_trace.1 none {} statement herror⟩

end Dyehouse
