import Dyehouse.Text.Basic

/-!
# Blank characters

The characters that count as blank, taking blanks off the ends of a text, and reading
a comma list.  The set is the one of the Unicode `White_Space` property together with
the four information separators U+001C to U+001F.
-/

namespace Dyehouse.Text

/-- The code points that count as blank. -/
def blankRanges : List (Nat × Nat) :=
  [(0x09, 0x0D), (0x1C, 0x20), (0x85, 0x85), (0xA0, 0xA0), (0x1680, 0x1680),
   (0x2000, 0x200A), (0x2028, 0x2029), (0x202F, 0x202F), (0x205F, 0x205F),
   (0x3000, 0x3000)]

/-- Whether a character counts as blank. -/
def isBlank (c : Char) : Bool :=
  within blankRanges c

/-- The text without the blanks at its start. -/
def stripStart (t : Text) : Text :=
  t.dropWhile isBlank

/-- The text without the blanks at its end. -/
def stripEnd (t : Text) : Text :=
  (t.reverse.dropWhile isBlank).reverse

/-- The text without the blanks at both ends. -/
def strip (t : Text) : Text :=
  stripEnd (stripStart t)

/-- The texts stripped, without those of which nothing is left. -/
def tidy (ts : List Text) : List Text :=
  (ts.map strip).filter fun t => !t.isEmpty

/-- The items of a comma list: its pieces, stripped, without the blank ones. -/
def items (t : Text) : List Text :=
  tidy (t.splitOn ',')

/-- Every character that the core library calls white space is blank. -/
theorem isBlank_of_isWhitespace {c : Char} (h : c.isWhitespace = true) : isBlank c = true := by
  simp only [Char.isWhitespace, Bool.or_eq_true, decide_eq_true_eq] at h
  rcases h with ((rfl | rfl) | rfl) | rfl <;> decide

end Dyehouse.Text
