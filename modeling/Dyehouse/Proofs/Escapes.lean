import Dyehouse.Proofs.Quoting

/-!
# Escapes, taken out in one scan

The escapes of a string literal are taken out by two replacements, each of which goes over the
whole text.  One scan from the left that looks at a backslash together with the character after
it gives the same (`Line.unescape_eq_scan`).

What might go wrong is a backslash that belongs to one pair and is used up for another.  In a run
of backslashes before a quote the scan pairs them from the left, and the first replacement takes
the last one.  In an odd run that is the one which the scan leaves over for the quote.  In an even
run the scan leaves none over; there the second replacement finds a run that is one shorter, and
keeps its last backslash, because the quote still stands between it and whatever follows.  So the
two agree on every text, and on the inside of a literal in particular, where an even run before a
quote does not occur.
-/

namespace Dyehouse.Line

/-! ### The scan -/

/-- One scan from the left: a backslash and the quote or the backslash after it stand for the
    latter, and any other pair that starts with a backslash for itself. -/
def scan : Text → Text
  | [] => []
  | [c] => [c]
  | c :: d :: rest =>
    if c = '\\' then
      if d = '"' ∨ d = '\\' then d :: scan rest else c :: d :: scan rest
    else c :: scan (d :: rest)

/-! ### What the two replacements make of a pair -/

theorem unescape_plain {c : Char} (h : c ≠ '\\') (t : Text) :
    unescape (c :: t) = c :: unescape t := by
  rw [unescape, Text.dropBefore_cons_of_ne _ h, Text.dropBefore_cons_of_ne _ h, unescape]

theorem unescape_quote (t : Text) : unescape ('\\' :: '"' :: t) = '"' :: unescape t := by
  rw [unescape, Text.dropBefore_pair, Text.dropBefore_cons_of_ne _ (by decide), unescape]

theorem unescape_backslash (t : Text) : unescape ('\\' :: '\\' :: t) = '\\' :: unescape t := by
  unfold unescape
  rw [Text.dropBefore_cons_of_head?_ne _ _ (by simp)]
  by_cases hquote : t.head? = some '"'
  · -- the second backslash goes to the quote, which then keeps the first one from a pair
    obtain ⟨rest, rfl⟩ := List.head?_eq_some_iff.mp hquote
    have hfirst : Text.dropBefore '\\' '"' ('"' :: rest) = '"' :: Text.dropBefore '\\' '"' rest :=
      Text.dropBefore_cons_of_ne _ (by decide) rest
    rw [Text.dropBefore_pair, hfirst, Text.dropBefore_cons_of_head?_ne _ _ (by simp)]
  · rw [Text.dropBefore_cons_of_head?_ne _ _ hquote, Text.dropBefore_pair]

theorem unescape_other {d : Char} (hquote : d ≠ '"') (hbackslash : d ≠ '\\') (t : Text) :
    unescape ('\\' :: d :: t) = '\\' :: d :: unescape t := by
  have hhead : ∀ {b : Char} {rest : Text}, d ≠ b → (d :: rest).head? ≠ some b := by
    intro b rest hne
    simpa using hne
  unfold unescape
  rw [Text.dropBefore_cons_of_head?_ne _ _ (hhead hquote), Text.dropBefore_cons_of_ne _ hbackslash,
    Text.dropBefore_cons_of_head?_ne _ _ (hhead hbackslash),
    Text.dropBefore_cons_of_ne _ hbackslash]

theorem unescape_eq_scan (t : Text) : unescape t = scan t := by
  fun_induction scan t with
  | case1 => rfl
  | case2 c => rfl
  | case3 d rest hspecial ih =>
    rcases hspecial with rfl | rfl
    · rw [unescape_quote, ih]
    · rw [unescape_backslash, ih]
  | case4 d rest hother ih =>
    rw [not_or] at hother
    rw [unescape_other hother.1 hother.2, ih]
  | case5 c d rest hplain ih => rw [unescape_plain hplain, ih]

/-! ### Literals -/

/-- A whole string literal, with the quotes around it. -/
def IsLiteral (text : Text) : Prop :=
  ∃ inside, Inside inside ∧ text = '"' :: (inside ++ ['"'])

/-- **One scan takes the escapes out of a literal.**  The two replacements make of what stands
    between the quotes of a literal what one scan makes of it, and that is the token which the
    literal is read as, whatever follows it on its line. -/
theorem literal_read_by_scan (text : Text) (h : IsLiteral text) :
    unescape text.tail.dropLast = scan text.tail.dropLast ∧
      ∀ rest, tokens (text ++ rest) = (tokens rest).map (scan text.tail.dropLast :: ·) := by
  obtain ⟨inside, hinside, rfl⟩ := h
  have hmiddle : ('"' :: (inside ++ ['"'])).tail.dropLast = inside := by simp
  rw [hmiddle, ← unescape_eq_scan]
  refine ⟨rfl, ?_⟩
  intro rest
  have hclosed : '"' :: (inside ++ ['"']) ++ rest = '"' :: (inside ++ '"' :: rest) := by simp
  rw [hclosed, tokens_quote, literal?_of_inside hinside]

/-- Three backslashes before a quote, a backslash before a letter, and two before the closing
    quote. -/
theorem literal_read_by_scan_mixed :
    let text : Text := ['"', '\\', '\\', '\\', '"', '\\', 'n', '\\', '\\', '"']
    IsLiteral text ∧ scan text.tail.dropLast = ['\\', '"', '\\', 'n', '\\'] ∧
      unescape text.tail.dropLast = ['\\', '"', '\\', 'n', '\\'] ∧
      tokens (text ++ ['a']) = .ok [['\\', '"', '\\', 'n', '\\'], ['a']] := by
  intro text
  have hliteral : IsLiteral text :=
    ⟨['\\', '\\', '\\', '"', '\\', 'n', '\\', '\\'],
      .pair (by decide) (.pair (by decide) (.pair (by decide) (.pair (by decide) .nil))), rfl⟩
  have hscan : scan text.tail.dropLast = ['\\', '"', '\\', 'n', '\\'] := by decide
  have hword : tokens ['a'] = .ok [['a']] := by decide +kernel
  obtain ⟨hunescape, htokens⟩ := literal_read_by_scan text hliteral
  refine ⟨hliteral, hscan, hunescape.trans hscan, ?_⟩
  rw [htokens, hscan, hword]
  rfl

end Dyehouse.Line
