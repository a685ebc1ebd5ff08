import Dyehouse.Command.Files
import Dyehouse.Command.Help
import Dyehouse.Command.Output
import Dyehouse.Command.Report

/-!
# What a command line does

The outcome of a command line, given what stands at the paths that it names: the exit code,
what is printed on the two channels, the file that is to be written, and why the command
broke off, if it did.  A command line that cannot be understood, or that names a file that
cannot be used, has no outcome.
-/

namespace Dyehouse.Command

/-- Why a command breaks off. -/
inductive Failure where
  /-- The bytes of the source are not text. -/
  | undecodable
  /-- The directory to write into is not there. -/
  | noDirectory
  /-- The path to write to goes on after a file. -/
  | notDirectory
  /-- A directory stands where the file would be. -/
  | isDirectory
  /-- The path to write to is longer than a file system takes. -/
  | overlongPath
  /-- A path holds a null character. -/
  | nullInPath
  /-- The sheet cannot be written down. -/
  | unrenderable (cause : RenderError)
  deriving DecidableEq, Repr

/-- What a command does. -/
structure Outcome where
  code : Nat := 0
  out : Text := []
  err : Text := []
  failure : Option Failure := none
  /-- The path and the contents of the file that is to be written. -/
  written : Option (Text × Text) := none
  deriving DecidableEq, Repr

namespace Outcome

/-- Break off. -/
def broken (failure : Failure) (err : Text) : Outcome :=
  { code := 1, err, failure := some failure }

/-- The outcome for a source that cannot be read. -/
def unreadable (cause : Unreadable) : Outcome :=
  { code := 1, err := printLine ("Parse error: ".toList ++ cause.toError.message) }

end Outcome

namespace Job

/-- The name under which reports speak of the source. -/
def sourceName (job : Job) : Text :=
  Path.fileName job.source

/-- How the source is to be compiled. -/
def options (job : Job) : Options :=
  { minify := job.minify, strict := job.strict, sourceName := some job.sourceName }

/-- What a verbose job prints while statements are carried out: a line for each event, as
    it is. -/
def trace (job : Job) (run : Run) : Text :=
  if job.verbose then run.events.flatMap fun event => event.traceLine ++ ['\n'] else []

/-- Print the diagnostics, then write or print the stylesheet. -/
def build (look : Text → Entry) (job : Job) (c : Compilation) : Outcome :=
  let err := job.trace c.run ++ printLines (c.run.log.map Diagnostic.text)
  match job.output with
  | none => { out := printLine c.css, err }
  | some path =>
    match look (Path.normalize path) with
    | .detached => .broken .noDirectory err
    | .blocked => .broken .notDirectory err
    | .directory => .broken .isDirectory err
    | .overlong => .broken .overlongPath err
    | .absent | .file _ =>
      { err := err ++ printLine ("Wrote ".toList ++ path)
        written := some (Path.normalize path, c.css) }

/-- Print the diagnostics and their count; errors show in the exit code. -/
def check (job : Job) (c : Compilation) : Outcome :=
  { code := if c.isOk then 0 else 1
    out := printLines (checkReport job.sourceName c)
    err := job.trace c.run }

/-- Print what the statements of the source define. -/
def inspect (job : Job) (statements : List Statement) : Outcome :=
  let run := Compilation.interpret { sourceName := some job.sourceName } statements
  { out := printLines (inspectReport job.sourceName statements.length run)
    err := job.trace run }

/-- Compile the source and go on with what comes of it. -/
def compiling (job : Job) (source : Text) (go : Compilation → Outcome) : Outcome :=
  match Compilation.ofSource job.options source with
  | .error (.unreadable cause) => .unreadable cause
  | .error (.unrenderable cause) => .broken (.unrenderable cause) []
  | .ok c => go c

/-- Do the job on the text of the source. -/
def onText (look : Text → Entry) (job : Job) (source : Text) : Outcome :=
  match job.verb with
  | .build => job.compiling source (job.build look)
  | .check => job.compiling source job.check
  | .inspect =>
    match Source.read source with
    | .error cause => .unreadable cause
    | .ok statements => job.inspect statements

/-- Do the job on the bytes of the source: they are decoded, and all line endings become
    newlines. -/
def onBytes (look : Text → Entry) (job : Job) (bytes : ByteArray) : Outcome :=
  match String.fromUTF8? bytes with
  | none => .broken .undecodable []
  | some s => job.onText look (Text.unifyNewlines s.toList)

/-- Whether the job may write where it is told to: anywhere but over a directory. -/
def mayWrite (look : Text → Entry) (job : Job) : Bool :=
  match job.output with
  | none => true
  | some path =>
    match look path with
    | .directory => false
    | _ => true

/-- Whether the path to write to, if there is one, can be handed to a file system. -/
def outputIsPassable (job : Job) : Bool :=
  job.output.all Path.isPassable

/-- Do the job, if the output is not a directory, the source is a file, and there is no
    operand but the source.  The output is looked at first. -/
def run (look : Text → Entry) (job : Job) : Option Outcome :=
  if !job.outputIsPassable then some (.broken .nullInPath [])
  else if !job.mayWrite look then none
  else
    match job.operands with
    | [] => none
    | source :: others =>
      if !Path.isPassable source then some (.broken .nullInPath [])
      else
        match look source with
        | .file bytes => if others.isEmpty then some (job.onBytes look bytes) else none
        | _ => none

/-- The paths that the job needs to know of. -/
def paths (job : Job) : List Text :=
  match job.output with
  | none => [job.source]
  | some path => [job.source, path, Path.normalize path]

end Job

namespace Request

/-- Do what is asked for. -/
def run (look : Text → Entry) : Request → Option Outcome
  | version => some { out := printLine ("dyescript, version ".toList ++ languageVersion) }
  | help verb => some { out := printLines (helpLines verb) }
  | job j => j.run look

/-- The paths that a request needs to know of. -/
def paths : Request → List Text
  | version | help _ => []
  | job j => j.paths

end Request

/-- The exit code of a command line that has no outcome. -/
def usageCode : Nat := 2

/-- What a command line does, given what stands at each path. -/
def run (look : Text → Entry) (arguments : List Text) : Option Outcome :=
  (Request.read arguments).bind fun request => request.run look

end Dyehouse.Command
