import Dyehouse.Table

/-!
# Collections

A collection is a named bag of variables.  A variable has an explicit value, a default, or
both, and the explicit one wins.  The collection's tag says where the declarations written
while it is active go; a tag that is not known writes as `implicit` does.
-/

namespace Dyehouse

/-- Where the declarations written under a collection go (`CollectionType`). -/
inductive Route where
  | implicit
  | style
  | animation
  | motion
  | font
  deriving DecidableEq, Repr

namespace Route

/-- The routes, each under the tag that asks for it. -/
def tags : List (Text × Route) :=
  [("implicit".toList, implicit), ("style".toList, style), ("animation".toList, animation),
   ("motion".toList, motion), ("font".toList, font)]

/-- The tag that asks for a route. -/
def tag : Route → Text
  | implicit => "implicit".toList
  | style => "style".toList
  | animation => "animation".toList
  | motion => "motion".toList
  | font => "font".toList

/-- The route that a tag asks for, in whatever case it is written (`CollectionType.from_name`).
    Only ASCII letters need folding: no other character has one letter of these tags as its lower
    case. -/
def ofTag? (t : Text) : Option Route :=
  tags.lookup (t.map Char.toLower)

@[simp] theorem ofTag?_tag (r : Route) : ofTag? r.tag = some r := by
  cases r <;> decide

end Route

/-- Explicit and default values of variables, under one name. -/
structure Collection where
  name : Text
  values : Table Text := ∅
  defaults : Table Text := ∅
  tag : Text := Route.tag .implicit
  deriving DecidableEq, Repr

namespace Collection

/-- A collection that has a name and nothing else. -/
def named (name : Text) : Collection :=
  { name }

/-- Where declarations written under the collection go (`Collection.type`). -/
def route (c : Collection) : Route :=
  (Route.ofTag? c.tag).getD .implicit

def explicit? (c : Collection) (key : Text) : Option Text :=
  c.values.get? key

def default? (c : Collection) (key : Text) : Option Text :=
  c.defaults.get? key

/-- The value of a variable: the explicit one if there is one, else the default. -/
def resolve? (c : Collection) (key : Text) : Option Text :=
  (c.explicit? key).or (c.default? key)

def assign (c : Collection) (key value : Text) : Collection :=
  { c with values := c.values.insert key value }

def assignDefault (c : Collection) (key value : Text) : Collection :=
  { c with defaults := c.defaults.insert key value }

def retag (c : Collection) (tag : Text) : Collection :=
  { c with tag }

/-- Whether two collections hold the same: the same name, tag, values and defaults, in
    whatever order the variables came. -/
def agrees (c d : Collection) : Bool :=
  c.name == d.name && c.values.agrees d.values && c.defaults.agrees d.defaults &&
    c.tag == d.tag

end Collection

end Dyehouse
