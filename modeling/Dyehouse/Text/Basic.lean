/-!
# Text

Text is kept as the list of its code points.  Lengths, columns and cuts all count
code points, and every fact about text is then a fact about lists.

The operations here are the ones that the rest of the library shares: cutting a text
at a separator, dropping one character before another, and writing numbers and truth
values.
-/

namespace Dyehouse

/-- Text is the list of its code points. -/
abbrev Text := List Char

namespace Text

/-- Whether the code point of `c` lies in one of the closed ranges. -/
def within (ranges : List (Nat × Nat)) (c : Char) : Bool :=
  ranges.any fun range => decide (range.1 ≤ c.toNat) && decide (c.toNat ≤ range.2)

/-! ### Cutting -/

/-- What stands before and after the first `sep`, if there is one. -/
def splitFirst (sep : Char) : Text → Option (Text × Text)
  | [] => none
  | c :: rest =>
    if c = sep then some ([], rest)
    else (splitFirst sep rest).map fun cut => (c :: cut.1, cut.2)

/-- What stands before and after the last `sep`, if there is one. -/
def splitLast (sep : Char) : Text → Option (Text × Text)
  | [] => none
  | c :: rest =>
    match splitLast sep rest with
    | some cut => some (c :: cut.1, cut.2)
    | none => if c = sep then some ([], rest) else none

/-- Drop `a` wherever it stands directly before `b`, reading from the left and never
    counting one character twice. -/
def dropBefore (a b : Char) : Text → Text
  | [] => []
  | [c] => [c]
  | c :: d :: rest =>
    if c = a ∧ d = b then b :: dropBefore a b rest
    else c :: dropBefore a b (d :: rest)

/-- Whether the text ends in `ending`. -/
def endsWith (ending text : Text) : Bool :=
  ending.isSuffixOf text

/-! ### Numbers and truth values -/

/-- The decimal digits of a number. -/
def ofNat (n : Nat) : Text :=
  Nat.toDigits 10 n

/-- Decimal digits, after a minus sign for a negative number. -/
def ofInt : Int → Text
  | .ofNat n => ofNat n
  | .negSucc n => '-' :: ofNat (n + 1)

/-- A truth value as it is shown to a reader. -/
def ofBool (b : Bool) : Text :=
  if b then "True".toList else "False".toList

/-- What is shown in place of a value that is missing. -/
def missing : Text :=
  "None".toList

/-! ### Laws of cutting and dropping -/

@[simp] theorem dropBefore_pair (a b : Char) (rest : Text) :
    dropBefore a b (a :: b :: rest) = b :: dropBefore a b rest := by
  simp [dropBefore]

theorem dropBefore_cons_of_ne {a c : Char} (b : Char) (h : c ≠ a) (rest : Text) :
    dropBefore a b (c :: rest) = c :: dropBefore a b rest := by
  cases rest <;> simp [dropBefore, h]

/-- No piece holds the separator. -/
theorem not_mem_of_mem_splitOn {sep : Char} {t piece : Text} (h : piece ∈ t.splitOn sep) :
    sep ∉ piece := by
  induction t generalizing piece with
  | nil =>
    rw [List.splitOn_nil, List.mem_singleton] at h
    simp [h]
  | cons c rest ih =>
    rw [List.splitOn_cons_eq_if_modifyHead] at h
    split at h
    · rcases List.mem_cons.mp h with rfl | h
      · simp
      · exact ih h
    · next hc =>
      have hne : sep ≠ c := fun heq => hc (beq_iff_eq.mpr heq.symm)
      obtain ⟨first, others, hrest⟩ := List.exists_cons_of_ne_nil (List.splitOn_ne_nil sep rest)
      rw [hrest] at h ih
      rcases List.mem_cons.mp h with rfl | h
      · rw [List.mem_cons, not_or]
        exact ⟨hne, ih List.mem_cons_self⟩
      · exact ih (List.mem_cons_of_mem _ h)

end Text

end Dyehouse
