import Dyehouse.Source.Line

/-!
# The grammar of a line

Which token lists a line stands for, said without reading it from left to right: the rules
say what a line may consist of, not how it is taken apart.
-/

namespace Dyehouse.Line

/-- The inside of a string literal: escape pairs, and characters that are neither a quote nor
    a backslash nor a newline. -/
inductive Inside : Text → Prop
  | nil : Inside []
  | plain {c : Char} {rest : Text} (quote : c ≠ '"') (backslash : c ≠ '\\') (newline : c ≠ '\n')
      (tail : Inside rest) : Inside (c :: rest)
  | pair {c : Char} {rest : Text} (newline : c ≠ '\n') (tail : Inside rest) :
      Inside ('\\' :: c :: rest)

/-- The tokens that a line stands for. -/
inductive Derives : Text → List Text → Prop
  | nil : Derives [] []
  | gap {c : Char} {line : Text} {ts : List Text} (blank : isGap c = true)
      (rest : Derives line ts) : Derives (c :: line) ts
  | comment (rest : Text) : Derives ('/' :: '/' :: rest) []
  | literal {inside line : Text} {ts : List Text} (complete : Inside inside)
      (rest : Derives line ts) : Derives ('"' :: (inside ++ '"' :: line)) (unescape inside :: ts)
  | word {w line : Text} {ts : List Text} (nonempty : w ≠ [])
      (inWord : ∀ c ∈ w, isWordChar c = true)
      (maximal : ∀ c, line.head? = some c → isWordChar c = false)
      (notComment : ¬ ['/', '/'] <+: w) (rest : Derives line ts) : Derives (w ++ line) (w :: ts)

/-- The line without the carriage return that ends it, if one does. -/
def body (line : Text) : Text :=
  if line.getLast? = some '\r' then line.dropLast else line

end Dyehouse.Line
