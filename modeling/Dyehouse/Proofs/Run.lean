import Dyehouse.Proofs.Plan

/-!
# Runs, visit by visit

A run is looked at through its *visits*: the statements in order, each with the state that it
meets.  What a run records is what its visits record, and what every statement keeps, a whole
run keeps.
-/

namespace Dyehouse

theorem Event.log_append (events more : List Event) :
    log (events ++ more) = log events ++ log more :=
  List.filterMap_append

/-- A class that is not defined is noted and not kept in the log. -/
theorem Event.log_undefinedClass (file : Option Text) (index : Option Int) (names : List Text) :
    log ((names.map Remark.undefinedClass).map fun remark => remark.event file index) = [] := by
  induction names with
  | nil => rfl
  | cons name rest ih => exact ih

/-- A statement has at most one diagnostic. -/
theorem State.length_log_interpret_le (file : Option Text) (s : State) (statement : Statement) :
    (s.interpret file statement).log.length ≤ 1 := by
  rw [State.interpret_eq]
  cases hplan : s.context.plan statement.content with
  | error fault => exact Nat.le_refl 1
  | ok plan =>
    simp only [Run.log, State.remarks, List.map_append, Event.log_append,
      Event.log_undefinedClass, List.append_nil]
    calc (Event.log (plan.remarks.map fun remark => remark.event file statement.index)).length
        ≤ (plan.remarks.map fun remark => remark.event file statement.index).length :=
          List.length_filterMap_le _ _
      _ = plan.remarks.length := List.length_map _
      _ ≤ 1 := (Context.plans_of_plan hplan).length_remarks_le

namespace Run

variable (file : Option Text)

/-- The statements of a run, each with the state that it meets. -/
def visits (start : State) : List Statement → List (State × Statement)
  | [] => []
  | statement :: rest =>
    (start, statement) :: visits (start.interpret file statement).state rest

theorem map_snd_visits (start : State) (statements : List Statement) :
    (visits file start statements).map Prod.snd = statements := by
  induction statements generalizing start with
  | nil => rfl
  | cons statement rest ih => rw [visits, List.map_cons, ih]

theorem visits_append (start : State) (statements more : List Statement) :
    visits file start (statements ++ more) =
      visits file start statements ++
        visits file (Run.statements file start statements).state more := by
  induction statements generalizing start with
  | nil => rfl
  | cons statement rest ih => simp only [List.cons_append, visits, Run.statements, ih]

theorem statements_append (start : State) (statements more : List Statement) :
    let first := Run.statements file start statements
    let later := Run.statements file first.state more
    Run.statements file start (statements ++ more) =
      { state := later.state, events := first.events ++ later.events } := by
  induction statements generalizing start with
  | nil => rfl
  | cons statement rest ih =>
    simp only [List.cons_append, Run.statements, ih, List.append_assoc]

theorem log_statements (start : State) (statements : List Statement) :
    (Run.statements file start statements).log =
      (visits file start statements).flatMap fun v => (v.1.interpret file v.2).log := by
  induction statements generalizing start with
  | nil => rfl
  | cons statement rest ih =>
    rw [visits, List.flatMap_cons, ← ih]
    exact Event.log_append _ _

theorem state_statements_induction {P : State → Prop}
    (hstep : ∀ s statement, P s → P (s.interpret file statement).state)
    {start : State} (hstart : P start) (statements : List Statement) :
    P (Run.statements file start statements).state := by
  induction statements generalizing start with
  | nil => exact hstart
  | cons statement rest ih => exact ih (hstep start statement hstart)

end Run

/-! ### Reachable states -/

namespace State

/-- The states that running statements leads to. -/
inductive Reachable : State → Prop
  | start (strict : Bool) : Reachable { context := { modes := { strict } } }
  | interpret {s : State} (h : Reachable s) (file : Option Text) (statement : Statement) :
      Reachable (s.interpret file statement).state

theorem Reachable.statements {s : State} (h : s.Reachable) (file : Option Text)
    (statements : List Statement) : (Run.statements file s statements).state.Reachable :=
  Run.state_statements_induction file (fun _ statement hs => hs.interpret file statement) h
    statements

end State

end Dyehouse
