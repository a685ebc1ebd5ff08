import Dyehouse.Source.Basic

/-!
# A source as one text

The grammar of a source knows no lines.  It takes the text apart from the left, and a newline is
taken like anything else: what ends a line is one of five terminals.  At each place the first
terminal that can be taken there is taken, and as much of the text as its pattern matches.
Comments and gaps are dropped, and a statement is one or more tokens and then a line ending.
Lines and columns are counted over the text that has been taken.

`Source.read` cuts a source at its newlines and reads line by line.  That the two do the same is
a theorem (`Source.parse_eq_read`), which rests on what the patterns match.
-/

namespace Dyehouse

namespace Text

/-- The longest start of a text that `p` accepts, and what follows it. -/
def longest? (p : Text → Bool) : Text → Option (Text × Text)
  | [] => if p [] then some ([], []) else none
  | c :: rest =>
    match longest? (fun t => p (c :: t)) rest with
    | some (taken, after) => some (c :: taken, after)
    | none => if p [] then some ([], c :: rest) else none

/-- What is taken is a start of the text, and is accepted. -/
theorem eq_append_of_longest? {p : Text → Bool} {t taken after : Text}
    (h : longest? p t = some (taken, after)) : t = taken ++ after ∧ p taken = true := by
  induction t generalizing p taken after with
  | nil =>
    obtain ⟨hp, heq⟩ := Option.ite_none_right_eq_some.mp h
    cases heq
    exact ⟨rfl, hp⟩
  | cons c rest ih =>
    rw [longest?] at h
    split at h
    · next start later hlater =>
      cases h
      obtain ⟨hrest, hp⟩ := ih hlater
      exact ⟨congrArg (c :: ·) hrest, hp⟩
    · obtain ⟨hp, heq⟩ := Option.ite_none_right_eq_some.mp h
      cases heq
      exact ⟨rfl, hp⟩

end Text

namespace Source

/-! ### Places -/

/-- A place in a source.  Lines and columns count from one. -/
structure Place where
  line : Nat
  column : Nat
  deriving DecidableEq, Repr

namespace Place

/-- Where a source starts. -/
def start : Place :=
  { line := 1, column := 1 }

/-- The place after one more character. -/
def step (place : Place) (c : Char) : Place :=
  if c = '\n' then { line := place.line + 1, column := 1 }
  else { place with column := place.column + 1 }

/-- The place after a text. -/
def after (place : Place) (t : Text) : Place :=
  t.foldl step place

end Place

/-! ### Terminals -/

/-- The kinds of text that a source consists of: `COMMENT`, `STRING`, `WORD`, `_NL`, and the
    blanks that are ignored. -/
inductive Terminal where
  | comment
  | literal
  | word
  | ending
  | gap
  deriving DecidableEq, Repr

namespace Terminal

/-- Whether a text is the inside of a literal and the quote that closes it:
    `(\\.|[^"\\\n])*"`, where the dot stands for anything but a newline. -/
def closes : Text → Bool
  | [] => false
  | c :: rest =>
    if c = '"' then rest.isEmpty
    else if c = '\\' then
      match rest with
      | [] => false
      | d :: rest => d != '\n' && closes rest
    else c != '\n' && closes rest

/-- Whether the pattern of a terminal matches a text as a whole. -/
def accepts : Terminal → Text → Bool
  -- `//[^\n]*`
  | comment, t => ['/', '/'].isPrefixOf t && t.all (· != '\n')
  -- `"(\\.|[^"\\\n])*"`
  | literal, t => t.head? == some '"' && closes t.tail
  -- `[^\s"]+`
  | word, t => !t.isEmpty && t.all Line.isWordChar
  -- `\r?\n`
  | ending, t => t == ['\n'] || t == ['\r', '\n']
  -- `[ \t]+`
  | gap, t => !t.isEmpty && t.all Line.isGap

/-- The terminals in the order in which they are tried.  A comment goes before a word, which its
    text could be as well; of the others no two start alike. -/
def order : List Terminal :=
  [comment, literal, word, ending, gap]

/-- The terminal that is taken from the start of a text, with its text and what follows. -/
def next? (t : Text) : Option (Terminal × Text × Text) :=
  order.findSome? fun kind => (Text.longest? kind.accepts t).map fun cut => (kind, cut)

theorem accepts_nil (kind : Terminal) : kind.accepts [] = false := by
  cases kind <;> rfl

theorem longest?_of_next? {t taken after : Text} {kind : Terminal}
    (h : next? t = some (kind, taken, after)) :
    Text.longest? kind.accepts t = some (taken, after) := by
  obtain ⟨k, -, hk⟩ := List.exists_of_findSome?_eq_some h
  obtain ⟨cut, hcut, heq⟩ := Option.map_eq_some_iff.mp hk
  cases heq
  exact hcut

/-- Something is taken with every terminal. -/
theorem length_next? {t taken after : Text} {kind : Terminal}
    (h : next? t = some (kind, taken, after)) : after.length < t.length := by
  obtain ⟨rfl, haccepts⟩ := Text.eq_append_of_longest? (longest?_of_next? h)
  cases taken with
  | nil =>
    rw [accepts_nil] at haccepts
    cases haccepts
  | cons c rest =>
    rw [List.length_append, List.length_cons]
    omega

end Terminal

/-! ### Lexemes -/

/-- A terminal as it stands in a source. -/
structure Lexeme where
  kind : Terminal
  text : Text
  place : Place
  deriving DecidableEq, Repr

/-- The text that a token stands for: a literal without its quotes and escapes, a word as it
    is. -/
def Lexeme.value (lexeme : Lexeme) : Text :=
  match lexeme.kind with
  | .literal => Line.unescape lexeme.text.tail.dropLast
  | _ => lexeme.text

/-- The lexemes of a text that starts at the given place, or the first character at which no
    terminal can be taken. -/
def lex (place : Place) : Text → Except Unreadable (List Lexeme)
  | [] => .ok []
  | c :: rest =>
    match h : Terminal.next? (c :: rest) with
    | none => .error { char := c, line := place.line, column := place.column }
    | some (kind, taken, after) =>
      have := Terminal.length_next? h
      (lex (place.after taken) after).map ({ kind, text := taken, place } :: ·)
  termination_by t => t.length
  decreasing_by exact this

/-! ### Statements -/

/-- Why a text is turned down: at some character no terminal can be taken, or the last statement
    is not ended. -/
inductive Rejection where
  | stray (u : Unreadable)
  | unfinished
  deriving DecidableEq, Repr

/-- The statement of some tokens, if there are any.  It stands on the line of the first. -/
def statement? : List Lexeme → Option Statement
  | [] => none
  | first :: rest =>
    some { content := (first :: rest).map Lexeme.value, index := some first.place.line }

/-- The statements of some lexemes that come after the tokens of a statement that is not ended
    yet: `start: (statement | _NL)*` with `statement: _token+ _NL`. -/
def group (pending : List Lexeme) : List Lexeme → Except Rejection (List Statement)
  | [] => if pending.isEmpty then .ok [] else .error .unfinished
  | lexeme :: rest =>
    match lexeme.kind with
    | .comment | .gap => group pending rest
    | .literal | .word => group (pending ++ [lexeme]) rest
    | .ending => (group [] rest).map ((statement? pending).toList ++ ·)

/-- The statements of a text that comes after the tokens of a statement that is not ended yet. -/
def parseFrom (pending : List Lexeme) (place : Place) (t : Text) :
    Except Rejection (List Statement) :=
  match lex place t with
  | .error u => .error (.stray u)
  | .ok lexemes => group pending lexemes

/-- The source with a newline at its end, if it has none there. -/
def ended (source : Text) : Text :=
  if source.getLast? = some '\n' then source else source ++ ['\n']

/-- The statements of a source, taken apart as one text. -/
def parse (source : Text) : Except Rejection (List Statement) :=
  parseFrom [] Place.start (ended source)

end Source

end Dyehouse
