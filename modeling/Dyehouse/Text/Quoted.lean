import Dyehouse.Text.Printable

/-!
# Quoted text

How a text is shown inside a message: between quotes, on one line, with every character
that could be mistaken for another one written as an escape.  The quotes are single unless
the text holds a single quote and no double one, so that as few quotes as possible need an
escape.
-/

namespace Dyehouse.Text

/-- The single quote. -/
def singleQuote : Char := '\x27'

/-- The double quote. -/
def doubleQuote : Char := '\x22'

/-- The last `width` hexadecimal digits of `n`, in lower case, the leading digit first. -/
def hexDigits : (width n : Nat) → Text
  | 0, _ => []
  | width + 1, n => hexDigits width (n / 16) ++ [Nat.digitChar (n % 16)]

/-- A character written by its code point, with two, four or eight digits: the fewest
    that can hold it. -/
def codeEscape (c : Char) : Text :=
  if c.toNat < 0x100 then '\\' :: 'x' :: hexDigits 2 c.toNat
  else if c.toNat < 0x10000 then '\\' :: 'u' :: hexDigits 4 c.toNat
  else '\\' :: 'U' :: hexDigits 8 c.toNat

/-- How one character is shown between quotes of the given kind. -/
def shown (quote c : Char) : Text :=
  if c = quote ∨ c = '\\' then ['\\', c]
  else if c = '\n' then ['\\', 'n']
  else if c = '\r' then ['\\', 'r']
  else if c = '\t' then ['\\', 't']
  else if isPrintable c then [c]
  else codeEscape c

/-- The quote between which a text is shown. -/
def quoteFor (t : Text) : Char :=
  if singleQuote ∈ t ∧ doubleQuote ∉ t then doubleQuote else singleQuote

/-- A text as it is shown inside a message. -/
def quoted (t : Text) : Text :=
  quoteFor t :: t.flatMap (shown (quoteFor t)) ++ [quoteFor t]

/-- A list of texts as it is shown inside a message. -/
def quotedList (ts : List Text) : Text :=
  '[' :: ", ".toList.intercalate (ts.map quoted) ++ [']']

end Dyehouse.Text
