import Dyehouse.Context
import Dyehouse.Sheet.Edit

/-!
# The state of a compilation

The state is the context of the next statement and the sheet so far.  While a statement is
worked on there is more to keep: what it has had to say by then.
-/

namespace Dyehouse

/-- The context of the next statement, and the sheet so far. -/
structure State where
  context : Context := {}
  sheet : Sheet := {}
  deriving DecidableEq, Repr

namespace State

def withRegistry (s : State) (f : Registry → Registry) : State :=
  { s with context := s.context.withRegistry f }

def withSheet (s : State) (f : Sheet → Sheet) : State :=
  { s with sheet := f s.sheet }

end State

/-- How far the work on a statement has got: the state with everything written by then, and
    what the statement has had to say by then. -/
structure Progress where
  state : State
  remarks : Array Remark := #[]
  deriving DecidableEq, Repr

namespace Progress

def withContext (p : Progress) (f : Context → Context) : Progress :=
  { p with state := { p.state with context := f p.state.context } }

def remark (p : Progress) (remark : Remark) : Progress :=
  { p with remarks := p.remarks.push remark }

/-- Make one change to the sheet, and remark on the class that it asks for and that is not
    defined. -/
def edit : Progress → Edit → Progress
  | ⟨⟨context, sheet⟩, remarks⟩, edit =>
    match sheet.lacks? edit with
    | none => ⟨⟨context, sheet.apply edit⟩, remarks⟩
    | some name => ⟨⟨context, sheet.apply edit⟩, remarks.push (.undefinedClass name)⟩

end Progress

end Dyehouse
