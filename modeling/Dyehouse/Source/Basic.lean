import Dyehouse.Source.Error
import Dyehouse.Source.Line
import Dyehouse.Statement.Basic

/-!
# Reading a source

A source is cut at its newlines, and each line is read on its own.  A line that has a token
is a statement; its index is the number of the line, counted from one.  Whether the last line
is ended by a newline makes no difference.

The grammar of a source does not start from lines.  `Source.parse` takes a source apart as the
grammar does, as one text, and comes to the same (`Source.parse_eq_read`).
-/

namespace Dyehouse.Source

/-- The lines of a source. -/
def lines (source : Text) : List Text :=
  source.splitOn '\n'

/-- The column of a stray character in its line, counted from one. -/
def columnOf (line : Text) (stray : Line.Stray) : Nat :=
  line.length - stray.following.length

/-- The statements of lines, of which the first has the given number. -/
def readLines : Nat → List Text → Except Unreadable (List Statement)
  | _, [] => .ok []
  | number, line :: rest =>
    match Line.tokens line with
    | .error stray =>
      .error { char := stray.char, line := number, column := columnOf line stray }
    | .ok content =>
      match readLines (number + 1) rest with
      | .error u => .error u
      | .ok statements =>
        .ok (if content.isEmpty then statements
          else { content, index := some number } :: statements)

/-- The statements of a source, in order, as `parse_source` gives them. -/
def read (source : Text) : Except Unreadable (List Statement) :=
  readLines 1 (lines source)

end Dyehouse.Source
