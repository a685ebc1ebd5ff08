import Dyehouse.Text.Blank

/-!
# The tokens of a line

A line is read from the left.  Spaces and tabs between tokens are skipped, `//` at the start
of a token begins a comment, and a carriage return as the very last character belongs to the
line ending.  A token is a string literal between double quotes, or else the longest run of
characters that are neither blank nor a double quote.  Anything else is a stray character.

A line holds no newline: lines are what is left when a source is cut at its newlines.
-/

namespace Dyehouse.Line

/-- A character at which no token can start, and what follows it on the line. -/
structure Stray where
  char : Char
  following : Text
  deriving DecidableEq, Repr

/-- Whether a character may stand between tokens: `[ \t]`. -/
def isGap (c : Char) : Bool :=
  c == ' ' || c == '\t'

/-- Whether a character belongs to a `WORD`: `[^\s"]`. -/
def isWordChar (c : Char) : Bool :=
  !Text.isBlank c && c != '"'

/-- Read the inside of a string literal, as it is written, up to its closing quote, and
    what follows the quote: what is left of a `STRING`, `"(\\.|[^"\\\n])*"`, behind its first
    quote.  A backslash takes the next character with it, so that a quote after a backslash does
    not close; there is no newline on a line to stop at. -/
def literal? : Text → Option (Text × Text)
  | [] => none
  | c :: rest =>
    if c = '"' then some ([], rest)
    else if c = '\\' then
      match rest with
      | [] => none
      | d :: rest => (literal? rest).map fun cut => ('\\' :: d :: cut.1, cut.2)
    else (literal? rest).map fun cut => (c :: cut.1, cut.2)

/-- The text that the inside of a string literal stands for (`_unquote`): a backslash is dropped
    before a quote, and then before a backslash. -/
def unescape (inside : Text) : Text :=
  Text.dropBefore '\\' '\\' (Text.dropBefore '\\' '"' inside)

@[simp] theorem literal?_quote (rest : Text) : literal? ('"' :: rest) = some ([], rest) := by
  cases rest <;> simp [literal?]

@[simp] theorem literal?_pair (d : Char) (rest : Text) :
    literal? ('\\' :: d :: rest) = (literal? rest).map fun cut => ('\\' :: d :: cut.1, cut.2) := by
  simp [literal?]

theorem literal?_plain {c : Char} (quote : c ≠ '"') (backslash : c ≠ '\\') (rest : Text) :
    literal? (c :: rest) = (literal? rest).map fun cut => (c :: cut.1, cut.2) := by
  cases rest <;> simp [literal?, quote, backslash]

/-- A literal is taken off the front of what it is read from. -/
theorem length_literal? {t inside after : Text} (h : literal? t = some (inside, after)) :
    after.length < t.length := by
  fun_induction literal? t generalizing inside after with
  | case1 => cases h
  | case2 rest => cases h; simp
  | case3 => cases h
  | case4 _ d rest ih =>
    obtain ⟨cut, hcut, heq⟩ := Option.map_eq_some_iff.mp h
    cases heq
    have := ih hcut
    simp only [List.length_cons]
    omega
  | case5 c rest _ _ ih =>
    obtain ⟨cut, hcut, heq⟩ := Option.map_eq_some_iff.mp h
    cases heq
    have := ih hcut
    simp only [List.length_cons]
    omega

theorem length_dropWhile_le (p : Char → Bool) (t : Text) : (t.dropWhile p).length ≤ t.length :=
  (List.dropWhile_sublist p).length_le

/-- The tokens of a line, or the first stray character: `(STRING | WORD)*` with `[ \t]+` and
    `COMMENT`, which is `//[^\n]*`, left out between them, up to the `\r?` of the line ending. -/
def tokens : Text → Except Stray (List Text)
  | [] => .ok []
  | c :: rest =>
    if isGap c then tokens rest
    else if c = '/' ∧ rest.head? = some '/' then .ok []
    else if c = '\r' ∧ rest = [] then .ok []
    else if c = '"' then
      match h : literal? rest with
      | none => .error { char := c, following := rest }
      | some (inside, after) =>
        have := length_literal? h
        match tokens after with
        | .error stray => .error stray
        | .ok ts => .ok (unescape inside :: ts)
    else if Text.isBlank c then .error { char := c, following := rest }
    else
      have := length_dropWhile_le isWordChar rest
      match tokens (rest.dropWhile isWordChar) with
      | .error stray => .error stray
      | .ok ts => .ok ((c :: rest.takeWhile isWordChar) :: ts)
  termination_by t => t.length
  decreasing_by all_goals simp only [List.length_cons]; omega

end Dyehouse.Line
