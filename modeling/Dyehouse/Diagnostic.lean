import Dyehouse.Text.Quoted

/-!
# Diagnostics

A diagnostic is one finding about a source: how serious it is, what it says, which part of
the compiler found it, and where.  A log is the list of the diagnostics so far, oldest
first.
-/

namespace Dyehouse

/-- How serious a finding is. -/
inductive Severity where
  | error
  | warning
  | info
  deriving DecidableEq, Repr

/-- A name that is not one of a severity. -/
structure UnknownSeverity where
  name : Text
  deriving DecidableEq, Repr

/-- What is said about a name that is not one of a severity. -/
def UnknownSeverity.message (u : UnknownSeverity) : Text :=
  Text.quoted u.name ++ " is not a valid Severity".toList

namespace Severity

/-- The name under which a severity is shown. -/
def name : Severity → Text
  | error => "ERROR".toList
  | warning => "WARNING".toList
  | info => "INFO".toList

def ofName (name : Text) : Except UnknownSeverity Severity :=
  match [error, warning, info].find? fun severity => severity.name = name with
  | some severity => .ok severity
  | none => .error { name }

end Severity

/-- One finding about a source. -/
structure Diagnostic where
  severity : Severity
  message : Text
  component : Text := []
  file : Option Text := none
  index : Option Int := none
  deriving DecidableEq, Repr

namespace Diagnostic

def isError (d : Diagnostic) : Bool :=
  d.severity = .error

def isWarning (d : Diagnostic) : Bool :=
  d.severity = .warning

/-- The component, as it is shown after the severity. -/
def componentText (d : Diagnostic) : Text :=
  if d.component.isEmpty then [] else ' ' :: d.component

/-- Where the finding is, as it is shown after the component: by file and line, by line
    alone if the file has no name, or not at all if the line is not known. -/
def location (d : Diagnostic) : Text :=
  match d.index with
  | none => []
  | some index =>
    let file := d.file.getD []
    if file.isEmpty then " [line ".toList ++ Text.ofInt index ++ [']']
    else " [".toList ++ file ++ ':' :: Text.ofInt index ++ [']']

/-- The finding in one line. -/
def text (d : Diagnostic) : Text :=
  d.severity.name ++ d.componentText ++ d.location ++ ": ".toList ++ d.message

end Diagnostic

/-- The diagnostics so far, oldest first. -/
abbrev Log := List Diagnostic

namespace Log

/-- The log with one more diagnostic. -/
def record (log : Log) (d : Diagnostic) : Log :=
  log ++ [d]

def errors (log : Log) : List Diagnostic :=
  log.filter Diagnostic.isError

def warnings (log : Log) : List Diagnostic :=
  log.filter Diagnostic.isWarning

/-- Whether no error has been found. -/
def isOk (log : Log) : Bool :=
  !log.any Diagnostic.isError

end Log

end Dyehouse
