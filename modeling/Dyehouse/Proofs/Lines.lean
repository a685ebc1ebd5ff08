import Mathlib.Control.Monad.Basic
import Dyehouse.Source.Lexer

/-!
# Sources, line by line

The lines of a source, and how reading goes through them.  A source may end its last line with a
newline or not.  `Source.Cut` says what the lines are once the newline that may be missing is put
there, and `Source.read_eq_readLines` that it makes no difference.
-/

namespace Dyehouse

/-! ### Cutting at a separator -/

namespace Text

/-- Pieces that are each ended by a separator are found again, with an empty one after the
    last separator. -/
theorem splitOn_flatMap {sep : Char} {parts : List Text} (h : ∀ part ∈ parts, sep ∉ part) :
    (parts.flatMap (· ++ [sep])).splitOn sep = parts ++ [[]] := by
  induction parts with
  | nil => rfl
  | cons part rest ih =>
    have hpart : sep ∉ part := h part List.mem_cons_self
    have hrest : ∀ p ∈ rest, sep ∉ p := fun p hp => h p (List.mem_cons_of_mem _ hp)
    rw [List.flatMap_cons, List.append_assoc, List.singleton_append,
      List.splitOn_append_cons_self_of_not_mem hpart, ih hrest, List.cons_append]

/-- The text with a separator after it is its pieces, each ended by one. -/
theorem flatMap_splitOn (sep : Char) (t : Text) :
    (t.splitOn sep).flatMap (· ++ [sep]) = t ++ [sep] := by
  induction t with
  | nil => rfl
  | cons c rest ih =>
    obtain ⟨first, others, hrest⟩ := List.exists_cons_of_ne_nil (List.splitOn_ne_nil sep rest)
    rw [List.splitOn_cons_eq_if_modifyHead]
    split
    · next hc =>
      rw [List.flatMap_cons, ih, beq_iff_eq.mp hc]
      rfl
    · rw [hrest] at ih ⊢
      simpa using ih

end Text

namespace Source

/-- Lines are read after the lines that come before them, if those can be read. -/
theorem readLines_append (number : Nat) (lines more : List Text) :
    readLines number (lines ++ more) =
      match readLines number lines with
      | .error u => .error u
      | .ok statements =>
        match readLines (number + lines.length) more with
        | .error u => .error u
        | .ok later => .ok (statements ++ later) := by
  induction lines generalizing number with
  | nil =>
    rw [List.nil_append, readLines, List.length_nil, Nat.add_zero]
    cases readLines number more <;> rfl
  | cons line rest ih =>
    have hlength : number + (line :: rest).length = number + 1 + rest.length := by
      rw [List.length_cons]
      omega
    rw [List.cons_append, readLines, readLines, hlength, ih (number + 1)]
    cases Line.tokens line with
    | error stray => rfl
    | ok content =>
      cases readLines (number + 1) rest with
      | error u => rfl
      | ok statements =>
        cases readLines (number + 1 + rest.length) more with
        | error u => rfl
        | ok later =>
          cases content with
          | nil => rfl
          | cons token others => rfl

/-! ### The newline at the end -/

/-- Lines without newlines in them that make up the source when each is ended by one. -/
structure Cut (source : Text) (lines : List Text) : Prop where
  whole : lines.flatMap (· ++ ['\n']) = ended source
  newlineFree : ∀ line ∈ lines, '\n' ∉ line

theorem exists_cut (source : Text) : ∃ lines, Cut source lines := by
  by_cases h : source.getLast? = some '\n'
  · obtain ⟨body, rfl⟩ := List.getLast?_eq_some_iff.mp h
    refine ⟨lines body, ?_, fun line hline => Text.not_mem_of_mem_splitOn hline⟩
    rw [ended, if_pos h]
    exact Text.flatMap_splitOn '\n' body
  · refine ⟨lines source, ?_, fun line hline => Text.not_mem_of_mem_splitOn hline⟩
    rw [ended, if_neg h]
    exact Text.flatMap_splitOn '\n' source

namespace Cut

variable {source : Text} {cut : List Text}

theorem lines_ended (h : Cut source cut) : lines (ended source) = cut ++ [[]] := by
  rw [← h.whole]
  exact Text.splitOn_flatMap h.newlineFree

theorem unique {other : List Text} (h : Cut source cut) (h' : Cut source other) : cut = other :=
  List.append_cancel_right (h.lines_ended.symm.trans h'.lines_ended)

/-- The lines of a source as it stands: if its last newline ends a line, nothing comes after
    it but an empty line. -/
theorem lines_eq (h : Cut source cut) : lines source = cut ∨ lines source = cut ++ [[]] := by
  have hended := h.lines_ended
  by_cases hlast : source.getLast? = some '\n'
  · rw [ended, if_pos hlast] at hended
    exact .inr hended
  · rw [ended, if_neg hlast, lines, List.splitOn_append_cons_self] at hended
    exact .inl (List.append_cancel_right hended)

end Cut

theorem readLines_append_nil (number : Nat) (lines : List Text) :
    readLines number (lines ++ [[]]) = readLines number lines := by
  have hempty : ∀ n, readLines n [[]] = .ok [] := by
    intro n
    simp [readLines, Line.tokens]
  rw [readLines_append]
  cases readLines number lines with
  | error u => rfl
  | ok statements => simp only [hempty, List.append_nil]

theorem read_eq_readLines {source : Text} {cut : List Text} (h : Cut source cut) :
    read source = readLines 1 cut := by
  rcases h.lines_eq with hlines | hlines
  · rw [read, hlines]
  · rw [read, hlines, readLines_append_nil]

end Source

end Dyehouse
