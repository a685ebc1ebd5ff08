import Dyehouse.Text.Basic

/-!
# Statements

A statement is a line of tokens.  Its first token is either a keyword, spelled as a word or
as a symbol, or a class query; the other tokens are what the keyword works on.
-/

namespace Dyehouse

/-- The tokens of a statement and the line they came from, if that is known. -/
structure Statement where
  content : List Text
  index : Option Int := some 0
  deriving DecidableEq, Repr

/-- What a statement can ask for. -/
inductive Keyword where
  /-- Give variables of the active collection explicit values. -/
  | assign
  /-- Give variables of the active collection defaults. -/
  | assignDefault
  /-- Make a collection the active one and load others beneath it. -/
  | enter
  /-- Write declarations under selectors. -/
  | style
  /-- Write declarations under selectors that define classes. -/
  | classStyle
  | importModule
  | exposeTo
  | exportTo
  /-- Give the active collection another tag. -/
  | retag
  /-- Say that the source has been digested already. -/
  | dyegest
  /-- Say which version of the language digested the source. -/
  | version
  deriving DecidableEq, Repr

namespace Keyword

/-- A keyword spelled as a word. -/
def word : Keyword → Text
  | assign => "var".toList
  | assignDefault => "default".toList
  | enter => "scope".toList
  | style => "style".toList
  | classStyle => "class".toList
  | importModule => "import".toList
  | exposeTo => "expose".toList
  | exportTo => "export".toList
  | retag => "!type".toList
  | dyegest => "!dyegest".toList
  | version => "!version".toList

/-- A keyword spelled as a symbol, for those that have one. -/
def symbol? : Keyword → Option Text
  | assign => some "@".toList
  | assignDefault => some "!@".toList
  | enter => some "#".toList
  | style => some "$".toList
  | classStyle => some ".$".toList
  | importModule => some "@@".toList
  | exposeTo => some "<=".toList
  | exportTo => some "=>".toList
  | retag | dyegest | version => none

def all : List Keyword :=
  [assign, assignDefault, enter, style, classStyle, importModule, exposeTo, exportTo, retag,
   dyegest, version]

/-- The keyword that a token spells, as a word or as a symbol (`StatementKind.from_token`). -/
def ofToken? (token : Text) : Option Keyword :=
  all.find? fun k => k.word = token ∨ k.symbol? = some token

@[simp] theorem ofToken?_word (k : Keyword) : ofToken? k.word = some k := by
  cases k <;> decide

theorem ofToken?_of_symbol? {k : Keyword} {token : Text} (h : k.symbol? = some token) :
    ofToken? token = some k := by
  cases k <;> cases h <;> decide

end Keyword

end Dyehouse
