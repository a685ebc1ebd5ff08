import Dyehouse.Text.Basic

/-!
# Names, references and class queries

The three small grammars that tokens are held against:

* a *variable name* is an ASCII letter followed by ASCII letters and digits;
* a *reference* is `&`, then a letter, then letters, digits and slashes, and whatever
  follows is kept as it is;
* a *class query* is `$`, then a letter, then letters, digits and dashes.
-/

namespace Dyehouse

namespace Name

/-- What may follow the first letter of a variable name: `[A-Za-z0-9]*$`, where `$` stands at the
    end or before a newline at the very end, so that one newline is let through. -/
def isTail : Text → Bool
  | [] => true
  | ['\n'] => true
  | c :: rest => c.isAlphanum && isTail rest

/-- Whether a variable may be given this name: whether `^[A-Za-z][A-Za-z0-9]*$` matches it. -/
def isValid : Text → Bool
  | [] => false
  | c :: rest => c.isAlpha && isTail rest

/-- Whether there is a name and a variable may be given it (`VariableNameValidator.is_valid`). -/
def accepts : Option Text → Bool
  | none => false
  | some name => isValid name

end Name

/-- A token that refers to a variable: the name, and the text that follows it. -/
structure Reference where
  name : Text
  suffix : Text
  deriving DecidableEq, Repr

namespace Reference

/-- Whether a character continues the name of a reference. -/
def isNameChar (c : Char) : Bool :=
  c.isAlphanum || c == '/'

/-- Read a token as a reference, with the longest name that it allows:
    `&([a-zA-Z][a-zA-Z0-9/]*)(.*)`, in which the dot stands for a newline as well. -/
def ofToken? : Text → Option Reference
  | '&' :: c :: rest =>
    if c.isAlpha then
      some { name := c :: rest.takeWhile isNameChar, suffix := rest.dropWhile isNameChar }
    else none
  | _ => none

/-- The token that is read as a given reference. -/
def token (r : Reference) : Text :=
  '&' :: (r.name ++ r.suffix)

/-- Reading a token as a reference loses nothing. -/
theorem token_of_ofToken? {t : Text} {r : Reference} (h : ofToken? t = some r) : r.token = t := by
  unfold ofToken? at h
  split at h
  · split at h
    · cases h; simp [token]
    · cases h
  · cases h

end Reference

namespace ClassQuery

/-- Whether a character continues the class name of a query. -/
def isNameChar (c : Char) : Bool :=
  c.isAlphanum || c == '-'

/-- The class name, if the whole token is a class query: `\$[a-zA-Z][a-zA-Z0-9-]*`. -/
def ofToken? : Text → Option Text
  | '$' :: c :: rest => if c.isAlpha && rest.all isNameChar then some (c :: rest) else none
  | _ => none

end ClassQuery

end Dyehouse
