import Dyehouse.Text.Basic

/-!
# Property names in two spellings

A property is written in the source either with dashes, `background-color`, or with
capitals, `backgroundColor`.  The library keeps the spelling with capitals and a
stylesheet shows the one with dashes.
-/

namespace Dyehouse.Text

/-- The text in which a dash directly before a character of a class is dropped, and that
    character changed. -/
def closeUp (p : Char → Bool) (f : Char → Char) : Text → Text
  | [] => []
  | [c] => [c]
  | c :: d :: rest =>
    if c = '-' ∧ p d then f d :: closeUp p f rest else c :: closeUp p f (d :: rest)

/-- The spelling with capitals: a dash before an ASCII letter or digit is dropped and the
    letter becomes a capital.  What matches `-([a-zA-Z0-9])` is replaced by the group in
    capitals. -/
def camelCase : Text → Text :=
  closeUp Char.isAlphanum Char.toUpper

/-- One character in the spelling with dashes. -/
def kebabChar (c : Char) : Text :=
  if c.isUpper then ['-', c.toLower] else [c]

/-- The spelling with dashes: an ASCII capital, what matches `[A-Z]`, becomes a dash and the
    small letter. -/
def kebabCase (t : Text) : Text :=
  t.flatMap kebabChar

section

variable {p : Char → Bool} {f : Char → Char}

theorem closeUp_dash {d : Char} (h : p d = true) (rest : Text) :
    closeUp p f ('-' :: d :: rest) = f d :: closeUp p f rest := by
  rw [closeUp, if_pos ⟨rfl, h⟩]

theorem closeUp_ne_nil {t : Text} (h : t ≠ []) : closeUp p f t ≠ [] := by
  fun_cases closeUp p f t with
  | case1 => exact absurd rfl h
  | case2 d => exact List.cons_ne_nil _ _
  | case3 dash d rest _ => exact List.cons_ne_nil _ _
  | case4 d e rest _ => exact List.cons_ne_nil _ _

theorem closeUp_cons_of_ne {c : Char} (h : c ≠ '-') (rest : Text) :
    closeUp p f (c :: rest) = c :: closeUp p f rest := by
  cases rest <;> simp [closeUp, h]

end

@[simp] theorem kebabCase_nil : kebabCase [] = [] := rfl

@[simp] theorem kebabCase_cons (c : Char) (t : Text) :
    kebabCase (c :: t) = kebabChar c ++ kebabCase t := rfl

@[simp] theorem kebabCase_append (s t : Text) :
    kebabCase (s ++ t) = kebabCase s ++ kebabCase t :=
  List.flatMap_append

end Dyehouse.Text
