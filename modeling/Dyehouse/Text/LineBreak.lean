import Dyehouse.Text.Basic

/-!
# Line breaks

Two readings of "line" meet here.  A report shows only the first line of a message, and
there every character that Unicode treats as a line boundary ends the line.  A source
file ends its lines in a newline, a carriage return or the pair of both, and reading the
file makes all three the same newline.
-/

namespace Dyehouse.Text

/-- The code points at which a shown line ends. -/
def lineBreakRanges : List (Nat × Nat) :=
  [(0x0A, 0x0D), (0x1C, 0x1E), (0x85, 0x85), (0x2028, 0x2029)]

/-- Whether a shown line ends at this character. -/
def isLineBreak (c : Char) : Bool :=
  within lineBreakRanges c

/-- The first line of a text. -/
def firstLine (t : Text) : Text :=
  t.takeWhile fun c => !isLineBreak c

/-- Every line ending, `\r\n` or `\r` or `\n`, as one newline. -/
def unifyNewlines : Text → Text
  | [] => []
  | '\r' :: '\n' :: rest => '\n' :: unifyNewlines rest
  | '\r' :: rest => '\n' :: unifyNewlines rest
  | c :: rest => c :: unifyNewlines rest

/-- Unified text holds no carriage return. -/
theorem not_mem_unifyNewlines (t : Text) : '\r' ∉ unifyNewlines t := by
  fun_induction unifyNewlines t with
  | case1 => simp
  | case2 rest ih => simp [ih]
  | case3 rest _ ih => simp [ih]
  | case4 c rest _ hc ih =>
    rw [List.mem_cons, not_or]
    exact ⟨fun h => hc h.symm, ih⟩

/-- Text without carriage returns is left as it is. -/
theorem unifyNewlines_eq_self {t : Text} (h : '\r' ∉ t) : unifyNewlines t = t := by
  fun_induction unifyNewlines t with
  | case1 => rfl
  | case2 rest ih => simp at h
  | case3 rest _ ih => simp at h
  | case4 c rest _ hc ih => simp_all

end Dyehouse.Text
