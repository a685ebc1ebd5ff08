import Dyehouse.Scope

/-!
# The registry of collections

All collections of one compilation, each under its own name, and the one scope in force.
The collection `root` is there from the start, is active at first, and is the root of the
scope throughout.  Naming a collection that is not there yet makes it.
-/

namespace Dyehouse

/-- The name of the collection that is there from the start. -/
def rootName : Text := "root".toList

/-- The collections by name, and the scope in force. -/
structure Registry where
  collections : Table Collection := (∅ : Table Collection).insert rootName (.named rootName)
  scope : Scope Text := { active := rootName, root := some rootName }
  deriving DecidableEq, Repr

namespace Registry

/-- The collection of a name; a name not seen before stands for an empty collection. -/
def content (r : Registry) (name : Text) : Collection :=
  (r.collections.get? name).getD (.named name)

/-- Change the collection of a name, making it first if it is not there. -/
def update (r : Registry) (name : Text) (f : Collection → Collection) : Registry :=
  { r with collections := r.collections.alter name fun c => f (c.getD (.named name)) }

/-- Make the collection of a name, if it is not there. -/
def ensure (r : Registry) (name : Text) : Registry :=
  r.update name id

def active (r : Registry) : Collection :=
  r.content r.scope.active

def updateActive (r : Registry) (f : Collection → Collection) : Registry :=
  r.update r.scope.active f

/-- Make a collection the active one, with nothing loaded beneath it. -/
def activate (r : Registry) (name : Text) : Registry :=
  let r := r.ensure name
  { r with scope := { r.scope with active := name, loaded := [] } }

/-- Load a collection beneath the active one. -/
def load (r : Registry) (name : Text) : Registry :=
  let r := r.ensure name
  { r with scope := r.scope.load r.content name }

def loadAll (r : Registry) (names : List Text) : Registry :=
  names.foldl load r

/-- The value that a name refers to (`DyeScopeWrapper.get`).  A name with a slash in it goes
    straight to the collection named before the last slash; any other name is looked up in the
    scope. -/
def get? (r : Registry) (name : Text) : Option Text :=
  match Text.splitLast '/' name with
  | some (collection, key) => (r.collections.get? collection).bind fun c => c.resolve? key
  | none => r.scope.get? r.content name

/-- The scope in force in one line. -/
def scopeSummary (r : Registry) : Text :=
  r.scope.summary r.content

end Registry

end Dyehouse
