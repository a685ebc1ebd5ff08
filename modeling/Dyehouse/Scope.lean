import Dyehouse.Collection
import Dyehouse.Text.Quoted

/-!
# Scopes

A scope says which collections a variable is looked up in, and in what order: the active
collection, then the loaded ones in the order they were loaded, then the root.  An explicit
value anywhere on the way beats every default.

A scope knows collections only by an identity of type `ι`; what each of them holds is given
beside it, as `content : ι → Collection`.  Two different identities may hold the same, and
the difference shows: the active collection and the root are told apart by identity, while
a collection counts as loaded as soon as a loaded one holds the same.
-/

namespace Dyehouse

/-- The active collection, the collections loaded beneath it, and the root if there is one. -/
structure Scope (ι : Type) where
  active : ι
  root : Option ι := none
  loaded : List ι := []
  deriving DecidableEq, Repr

namespace Scope

variable {ι : Type} [DecidableEq ι] (content : ι → Collection)

/-- Whether some loaded collection holds the same as `i`. -/
def hasLoaded (s : Scope ι) (i : ι) : Bool :=
  let c := content i
  s.loaded.any fun j => (content j).agrees c

/-- Load a collection beneath the active one, unless it is the active one or something that
    holds the same is loaded already. -/
def load (s : Scope ι) (i : ι) : Scope ι :=
  if i = s.active ∨ s.hasLoaded content i then s
  else { s with loaded := s.loaded ++ [i] }

/-- The root as the last place to look in, unless it has been looked in before. -/
def ancestors (s : Scope ι) : List ι :=
  match s.root with
  | none => []
  | some r => if r = s.active ∨ s.hasLoaded content r then [] else [r]

/-- The collections that a lookup goes through, in order. -/
def chain (s : Scope ι) : List ι :=
  s.active :: (s.loaded ++ s.ancestors content)

/-- The value of a variable (`Scope.get`): the first explicit one along the chain, else the
    first default along the chain. -/
def get? (s : Scope ι) (key : Text) : Option Text :=
  let chain := s.chain content
  (chain.findSome? fun i => (content i).explicit? key).or
    (chain.findSome? fun i => (content i).default? key)

omit [DecidableEq ι] in
/-- The scope in one line: the name of the active collection and those of the loaded. -/
def summary (s : Scope ι) : Text :=
  "Scope(collection=".toList ++ Text.quoted (content s.active).name ++ ", loaded=".toList ++
    Text.quotedList (s.loaded.map fun i => (content i).name) ++ [')']

end Scope

end Dyehouse
