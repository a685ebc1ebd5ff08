import Dyehouse.Handler

/-!
# Running statements

Statements are run one after the other, each on the state that the one before it has left.
A statement that fails becomes one more error among its events, and the run goes on from
whatever state the statement got to.
-/

namespace Dyehouse

/-- The state after some statements, and what was heard of them. -/
structure Run where
  state : State := {}
  events : List Event := []
  deriving DecidableEq, Repr

/-- The progress on the statement at `index` of `file`, as it is heard from outside. -/
def Progress.run (file : Option Text) (index : Option Int) (p : Progress) : Run :=
  { state := p.state, events := p.remarks.toList.map fun remark => remark.event file index }

namespace Run

def record (run : Run) (event : Event) : Run :=
  { run with events := run.events ++ [event] }

/-- The diagnostics of the statements, in order. -/
def log (run : Run) : Log :=
  Event.log run.events

end Run

/-- Run one statement of a file (`DyeInterpreter.interpret`). -/
def State.interpret (file : Option Text) (s : State) (statement : Statement) : Run :=
  match (Action.execute statement.content).run { state := s } with
  | .ok _ p => p.run file statement.index
  | .error fault p => (p.run file statement.index).record (fault.event file statement.index)

/-- Run statements one after the other. -/
def Run.statements (file : Option Text) (start : State) : List Statement → Run
  | [] => { state := start }
  | statement :: rest =>
    let step := start.interpret file statement
    let later := statements file step.state rest
    { state := later.state, events := step.events ++ later.events }

end Dyehouse
