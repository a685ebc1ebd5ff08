import Dyehouse.Text.Basic

/-!
# Files and paths

What a command needs to know about a path is an `Entry`.  A `Folder` is a working directory
held in memory: the files in it, each by the names that lead to it from the top.  A directory
is there as soon as a file is in it.
-/

namespace Dyehouse.Command

/-- What stands at a path. -/
inductive Entry where
  /-- A file and its bytes. -/
  | file (bytes : ByteArray)
  | directory
  /-- Nothing, in a directory that is there. -/
  | absent
  /-- Nothing, and the directory it would be in is not there either. -/
  | detached
  /-- The path goes on after a file. -/
  | blocked
  /-- The path, or a name on it, is longer than a file system takes. -/
  | overlong

/-! ### Paths -/

namespace Path

/-- Whether a name on a path means the directory that it is in. -/
def isHere (name : Text) : Bool :=
  name.isEmpty || name = ['.']

/-- The names on a path, without those that lead nowhere. -/
def names (path : Text) : List Text :=
  (path.splitOn '/').filter fun name => !isHere name

/-- Whether a path starts at the top of all directories. -/
def isAbsolute (path : Text) : Bool :=
  path.head? = some '/'

/-- The path without names that lead nowhere; the working directory itself is a dot. -/
def normalize (path : Text) : Text :=
  match isAbsolute path, names path with
  | true, steps => '/' :: ['/'].intercalate steps
  | false, [] => ['.']
  | false, steps => ['/'].intercalate steps

/-- Whether a path can be handed to a file system at all: it holds no null character. -/
def isPassable (path : Text) : Bool :=
  !path.contains '\x00'

/-- How many bytes a text takes in UTF-8. -/
def byteLength (t : Text) : Nat :=
  t.foldl (fun n c => n + c.utf8Size) 0

/-- The most bytes that a name on a path may take. -/
def maxName : Nat := 255

/-- The most bytes that a whole path may take. -/
def maxPath : Nat := 4095

/-- The last name on a path. -/
def fileName (path : Text) : Text :=
  (names path).getLast?.getD []

end Path

/-! ### A working directory in memory -/

/-- The files of a working directory, each by the names that lead to it. -/
structure Folder where
  files : List (List Text × ByteArray) := []

/-- Where a walk along a path has come to. -/
inductive Place where
  /-- In the working directory, by the names from its top. -/
  | inside (steps : List Text)
  /-- A directory around the working directory. -/
  | outside
  /-- Something in a directory around the working directory; nothing is known of it. -/
  | beyond
  deriving DecidableEq, Repr

/-- Go on by one name. -/
def Place.enter (place : Place) (name : Text) : Place :=
  if Path.isHere name then place
  else if name = "..".toList then
    match place with
    | inside [] => outside
    | inside steps => inside steps.dropLast
    | outside => outside
    | beyond => beyond
  else
    match place with
    | inside steps => inside (steps ++ [name])
    | outside => beyond
    | beyond => beyond

namespace Folder

/-- What stands at a place. -/
def entry (folder : Folder) : Place → Entry
  | .outside => .directory
  | .beyond => .absent
  | .inside steps =>
    match folder.files.lookup steps with
    | some bytes => .file bytes
    | none =>
      if steps.isEmpty || folder.files.any fun file => steps.isPrefixOf file.1 then .directory
      else .absent

/-- Walk along names, as long as one directory leads to the next. -/
def walk (folder : Folder) (place : Place) : List Text → Except Entry Place
  | [] => .ok place
  | name :: rest =>
    match folder.entry place with
    | .directory =>
      if Path.maxName < Path.byteLength name then .error .overlong
      else folder.walk (place.enter name) rest
    | .file _ | .blocked => .error .blocked
    | .absent | .detached => .error .detached
    | .overlong => .error .overlong

/-- The place that a path leads to. -/
def resolve (folder : Folder) (path : Text) : Except Entry Place :=
  if path.isEmpty then .error .detached
  else if Path.maxPath < Path.byteLength path then .error .overlong
  else folder.walk (if Path.isAbsolute path then .outside else .inside []) (path.splitOn '/')

/-- What stands at a path. -/
def look (folder : Folder) (path : Text) : Entry :=
  match folder.resolve path with
  | .ok place => folder.entry place
  | .error entry => entry

/-- Write a file. -/
def write (folder : Folder) (path : Text) (bytes : ByteArray) : Folder :=
  match folder.resolve path with
  | .ok (.inside steps) =>
    { files := (steps, bytes) :: folder.files.filter fun file => file.1 != steps }
  | _ => folder

end Folder

end Dyehouse.Command
