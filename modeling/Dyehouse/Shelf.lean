import Dyehouse.Scope

/-!
# Shelves

A shelf is a row of free-standing collections with a scope over them.  Collections are told
apart by their position alone: several may have the same name, and even hold the same.
-/

namespace Dyehouse

/-- Collections by position, and a scope over them. -/
structure Shelf where
  collections : Array Collection
  scope : Scope Nat
  deriving DecidableEq, Repr

namespace Shelf

/-- The collection at a position; past the end there are only empty ones. -/
def content (s : Shelf) (i : Nat) : Collection :=
  (s.collections[i]?).getD (.named [])

def update (s : Shelf) (i : Nat) (f : Collection → Collection) : Shelf :=
  { s with collections := s.collections.modify i f }

def load (s : Shelf) (i : Nat) : Shelf :=
  { s with scope := s.scope.load s.content i }

def get? (s : Shelf) (key : Text) : Option Text :=
  s.scope.get? s.content key

/-- The positions that a lookup goes through, in order. -/
def chain (s : Shelf) : List Nat :=
  s.scope.chain s.content

def summary (s : Shelf) : Text :=
  s.scope.summary s.content

end Shelf

end Dyehouse
