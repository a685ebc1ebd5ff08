import Dyehouse.Command.Outcome

/-!
# The command line

Looks up the paths that the command line names, and carries out what `Command.run` says.
-/

namespace Dyehouse.Command

/-- What stands at a path of the file system, told from an attempt to read it. -/
def lookUp (path : Text) : IO Entry := do
  try
    return .file (← IO.FS.readBinFile (String.ofList path))
  catch
    | .noFileOrDirectory .. => return .absent
    | .invalidArgument .. => return .overlong
    | _ => return .directory

/-- What stands at a path; where no file does, its directory is looked up as well. -/
def lookUpPlace (path : Text) : IO Entry := do
  match ← lookUp path, Text.splitLast '/' path with
  | .file bytes, _ => return .file bytes
  | entry, none => return entry
  | entry, some (parent, _) =>
    match ← lookUp (if parent.isEmpty then ['/'] else parent) with
    | .file _ => return .blocked
    | .absent => return .detached
    | _ => return entry

/-- Print text on a stream. -/
def putText (stream : IO.FS.Stream) (t : Text) : IO Unit :=
  stream.putStr (String.ofList t)

/-- What is printed about a command that broke off. -/
def failureText : Failure → String
  | .undecodable => "the source is not encoded in UTF-8"
  | .noDirectory => "the directory of the output is missing"
  | .notDirectory => "the path of the output leads through a file"
  | .isDirectory => "the output is a directory"
  | .overlongPath => "the path of the output is too long"
  | .nullInPath => "a path holds a null character"
  | .unrenderable cause => String.ofList cause.message

/-- Carry out an outcome. -/
def perform (outcome : Outcome) : IO UInt32 := do
  putText (← IO.getStdout) outcome.out
  match outcome.written with
  | some (path, contents) => IO.FS.writeFile (String.ofList path) (String.ofList contents)
  | none => pure ()
  putText (← IO.getStderr) outcome.err
  match outcome.failure with
  | some failure => (← IO.getStderr).putStrLn (failureText failure)
  | none => pure ()
  return outcome.code.toUInt32

end Dyehouse.Command

open Dyehouse Dyehouse.Command in
/-- Run the command line. -/
def main (args : List String) : IO UInt32 := do
  let arguments := args.map String.toList
  let paths := ((Request.read arguments).map Request.paths).getD []
  let entries ← paths.mapM fun path => do return (path, ← lookUpPlace path)
  let look (path : Text) : Entry := (entries.lookup path).getD .absent
  match Command.run look arguments with
  | some outcome => perform outcome
  | none =>
    (← IO.getStderr).putStrLn "Try 'dyescript --help' for help."
    return usageCode.toUInt32
