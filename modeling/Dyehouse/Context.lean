import Dyehouse.Name
import Dyehouse.Registry
import Dyehouse.Statement.Fault

/-!
# The context of a statement

What the tokens of a statement are read against: the collections with the scope in force,
and the modes.
-/

namespace Dyehouse

/-- The modes in force.  In strict mode a reference to nothing and an unknown statement are
    errors; `dyegest` marks a source that has been digested already. -/
structure Modes where
  strict : Bool := false
  dyegest : Bool := false
  deriving DecidableEq, Repr

def Modes.summary (m : Modes) : Text :=
  "DyeRuntime(version=".toList ++ Text.quoted languageVersion ++ ", strict=".toList ++
    Text.ofBool m.strict ++ ", dyegest=".toList ++ Text.ofBool m.dyegest ++ [')']

/-- What the tokens of a statement are read against. -/
structure Context where
  registry : Registry := {}
  modes : Modes := {}
  deriving DecidableEq, Repr

namespace Context

/-- Replace a token that refers to a variable by the value and what follows the name
    (`DyeInterpreter.evaluate`).  A reference to nothing stays as it is, or is a fault in strict
    mode; any other token stays as it is. -/
def evaluate (c : Context) (token : Text) : Except Fault Text :=
  match Reference.ofToken? token with
  | none => .ok token
  | some r =>
    match c.registry.get? r.name with
    | some value => .ok (value ++ r.suffix)
    | none => if c.modes.strict then .error (.unresolved r.name) else .ok token

/-- Evaluate tokens from the left, up to the first fault. -/
def evaluateAll (c : Context) : List Text → Except Fault (List Text)
  | [] => .ok []
  | token :: rest =>
    match c.evaluate token with
    | .error fault => .error fault
    | .ok value =>
      match c.evaluateAll rest with
      | .error fault => .error fault
      | .ok values => .ok (value :: values)

def withRegistry (c : Context) (f : Registry → Registry) : Context :=
  { c with registry := f c.registry }

def enableStrict (c : Context) : Context :=
  { c with modes := { c.modes with strict := true } }

def enableDyegest (c : Context) : Context :=
  { c with modes := { c.modes with dyegest := true } }

end Context

end Dyehouse
