import Dyehouse.Command.Arguments

/-!
# What a command line asks for

A command line asks for the version, for help, or for one of three jobs on a source file: to
build a stylesheet from it, to check it, or to inspect what it defines.

All options are read before anything is done, so one that is not understood always shows.
Asking for the version or for help then wins over everything else that is wrong or missing,
and of the two the one that stands first wins.
-/

namespace Dyehouse.Command

/-- The jobs, by name. -/
inductive Verb where
  | build
  | check
  | inspect
  deriving DecidableEq, Repr

namespace Verb

/-- The name of a job. -/
def name : Verb → Text
  | build => "build".toList
  | check => "check".toList
  | inspect => "inspect".toList

/-- The options that a job understands. -/
def flags : Verb → List Flag
  | build => [.output, .minify, .strict, .help]
  | check => [.strict, .help]
  | inspect => [.help]

/-- The job of a name. -/
def ofName? (name : Text) : Option Verb :=
  [build, check, inspect].find? fun verb => verb.name = name

end Verb

/-- A job with all that it needs to know.  Of the operands the first is the source; that
    there is no other one is checked only when the source has been found. -/
structure Job where
  verb : Verb
  operands : List Text
  verbose : Bool := false
  minify : Bool := false
  strict : Bool := false
  output : Option Text := none
  deriving DecidableEq, Repr

/-- What a command line asks for. -/
inductive Request where
  | version
  /-- Help with a job, or with the command line as a whole. -/
  | help (verb : Option Verb)
  | job (job : Job)
  deriving DecidableEq, Repr

namespace Job

/-- The job that options and operands describe. -/
def ofArguments (verbose : Bool) (verb : Verb) (a : Arguments) : Job :=
  { verb, operands := a.operands, verbose, minify := a.has .minify, strict := a.has .strict
    output := (a.value? .output).filter fun path => !path.isEmpty }

/-- The path of the source. -/
def source (job : Job) : Text :=
  job.operands.headD []

end Job

namespace Request

/-- The options that stand before the name of the job. -/
def flags : List Flag :=
  [.version, .verbose, .help]

/-- What an option asks for on its own, whatever else there is on the command line. -/
def ofFlag? (verb : Option Verb) : Flag → Option Request
  | .version => some .version
  | .help => some (.help verb)
  | .verbose | .output | .minify | .strict => none

/-- What the first of the options that ask for something on their own asks for. -/
def ofSettings? (verb : Option Verb) (settings : List Setting) : Option Request :=
  settings.findSome? fun setting => ofFlag? verb setting.flag

/-- Read the arguments of a job. -/
def readJob (verbose : Bool) (verb : Verb) (arguments : List Text) : Option Request :=
  match Arguments.read verb.flags true arguments with
  | none => none
  | some a =>
    (ofSettings? (some verb) a.settings).or (some (.job (.ofArguments verbose verb a)))

/-- Read a word that names no job, and what follows it, as options.  This matters after
    `--`, which ends the options only once. -/
def readAgain (arguments : List Text) : Option Request :=
  match Arguments.read flags false arguments with
  | none => none
  | some a => ofSettings? none a.settings

/-- Read a command line; `none` if it cannot be understood. -/
def read (arguments : List Text) : Option Request :=
  match Arguments.read flags false arguments with
  | none => none
  | some a =>
    (ofSettings? none a.settings).or
      (match a.operands with
        | [] => none
        | name :: rest =>
          match Verb.ofName? name with
          | some verb => readJob (a.has .verbose) verb rest
          | none => readAgain (name :: rest))

end Request

end Dyehouse.Command
