import Dyehouse.Text.Basic

/-!
# Printed lines

Lines are printed without terminal escapes: an escape character, an opening bracket,
parameters from `0` to `?`, then characters from the space to `/`, and one closing character
from `@` to `~`.
-/

namespace Dyehouse.Command

/-- Whether the code point of a character lies between two others. -/
def isBetween (first last c : Char) : Bool :=
  decide (first.toNat ≤ c.toNat) && decide (c.toNat ≤ last.toNat)

/-- What follows a terminal escape, of which the escape character and the bracket have been
    read; `none` if it is not one. -/
def afterEscape? (t : Text) : Option Text :=
  match (t.dropWhile (isBetween '0' '?')).dropWhile (isBetween ' ' '/') with
  | [] => none
  | c :: rest => if isBetween '@' '~' c then some rest else none

theorem length_afterEscape? {t rest : Text} (h : afterEscape? t = some rest) :
    rest.length < t.length := by
  have houter := (List.dropWhile_sublist (l := t.dropWhile (isBetween '0' '?'))
    (isBetween ' ' '/')).length_le
  have hinner := (List.dropWhile_sublist (l := t) (isBetween '0' '?')).length_le
  unfold afterEscape? at h
  split at h
  · cases h
  · next c tail heq =>
    split at h
    · cases h
      rw [heq] at houter
      simp only [List.length_cons] at houter
      omega
    · cases h

/-- The text without terminal escapes. -/
def stripEscapes : Text → Text
  | [] => []
  | [c] => [c]
  | c :: d :: rest =>
    if c = '\x1b' ∧ d = '[' then
      match h : afterEscape? rest with
      | some rest' =>
        have := length_afterEscape? h
        stripEscapes rest'
      | none => c :: stripEscapes (d :: rest)
    else c :: stripEscapes (d :: rest)
  termination_by t => t.length
  decreasing_by all_goals simp only [List.length_cons]; omega

/-- A printed line. -/
def printLine (t : Text) : Text :=
  stripEscapes t ++ ['\n']

/-- Printed lines. -/
def printLines (ts : List Text) : Text :=
  ts.flatMap printLine

end Dyehouse.Command
