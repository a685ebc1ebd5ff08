import Dyehouse.Source.Basic

/-!
# Writing a source

Every list of tokens that hold no newline can be written as a line, with each token as a
string literal.
-/

namespace Dyehouse

namespace Line

/-- The inside of a string literal that stands for a text: a quote and a backslash get a
    backslash before them. -/
def escape (t : Text) : Text :=
  t.flatMap fun c => if c = '\\' ∨ c = '"' then ['\\', c] else [c]

/-- A token as a string literal. -/
def writeToken (t : Text) : Text :=
  '"' :: escape t ++ ['"']

/-- Tokens as string literals, with a space between them. -/
def write (content : List Text) : Text :=
  [' '].intercalate (content.map writeToken)

end Line

/-- Statements as a source, each on a line of its own. -/
def Source.write (contents : List (List Text)) : Text :=
  contents.flatMap fun content => Line.write content ++ ['\n']

end Dyehouse
