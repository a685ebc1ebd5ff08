import Dyehouse.Text.LineBreak

/-!
# Sources that cannot be read

A source is turned down at the first character at which no token can start.  `Unreadable`
says which character that is and where; `SourceError` is the report of it, or of any other
complaint about a place in a source.
-/

namespace Dyehouse

/-- A complaint about a source, with the place it is about as far as that is known. -/
structure SourceError where
  detail : Text
  line : Option Int := none
  column : Option Int := none
  deriving DecidableEq, Repr

namespace SourceError

/-- The place that the complaint is about.  A column means nothing without a line. -/
def location (e : SourceError) : Text :=
  match e.line, e.column with
  | none, _ => []
  | some line, none => "line ".toList ++ Text.ofInt line
  | some line, some column =>
    "line ".toList ++ Text.ofInt line ++ ", column ".toList ++ Text.ofInt column

/-- The complaint, after the place that it is about. -/
def message (e : SourceError) : Text :=
  if e.location.isEmpty then e.detail else e.location ++ ": ".toList ++ e.detail

end SourceError

/-- A character at which no token can start.  Lines and columns count from one. -/
structure Unreadable where
  char : Char
  line : Nat
  column : Nat
  deriving DecidableEq, Repr

namespace Unreadable

/-- What is said about the character.  A character that ends a line when shown also ends
    the report, which is one line long. -/
def report (u : Unreadable) : Text :=
  Text.firstLine ("No terminal matches \x27".toList ++ u.char ::
    "\x27 in the current parser context, at line ".toList ++ Text.ofNat u.line ++
    " col ".toList ++ Text.ofNat u.column)

/-- The complaint about the source. -/
def toError (u : Unreadable) : SourceError where
  detail := "Invalid DyeScript source: ".toList ++ u.report
  line := some u.line
  column := some u.column

end Unreadable

end Dyehouse
