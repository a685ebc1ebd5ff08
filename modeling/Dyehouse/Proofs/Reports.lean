import Dyehouse.Proofs.Failure
import Dyehouse.Proofs.Grammar
import Dyehouse.Proofs.Sheet

/-!
# Where diagnostics point

A statement is reported at most once, and what is reported of it bears its own index.  The
indices in the log of a run are therefore some of the indices of the statements, in the same
order.  The statements of a source bear the numbers of their lines, and these only go up: lines
that are blank or hold nothing but a comment are counted and make no statement.
-/

namespace Dyehouse

/-! ### The numbers of lines -/

namespace Source

/-- The line with this number, counted from one, stands for these tokens, and there is at least
    one of them. -/
def Holds (source : Text) (number : Nat) (content : List Text) : Prop :=
  ∃ k line, number = k + 1 ∧ (lines source)[k]? = some line ∧
    Line.Derives (Line.body line) content ∧ content ≠ []

theorem exists_of_mem_numbered {number : Nat} {contents : List (List Text)} {s : Statement}
    (h : s ∈ numbered number contents) :
    ∃ k, contents[k]? = some s.content ∧ s.content ≠ [] ∧
      s.index = some ((number + k : Nat) : Int) := by
  induction contents generalizing number with
  | nil => cases h
  | cons content rest ih =>
    have hlater : s ∈ numbered (number + 1) rest → ∃ k, (content :: rest)[k]? = some s.content ∧
        s.content ≠ [] ∧ s.index = some ((number + k : Nat) : Int) := by
      intro hmem
      obtain ⟨k, hcontent, hne, hindex⟩ := ih hmem
      refine ⟨k + 1, by simpa using hcontent, hne, ?_⟩
      rw [hindex, Nat.add_assoc, Nat.add_comm 1 k]
    rw [numbered] at h
    split at h
    · exact hlater h
    · next hne =>
      rcases List.mem_cons.mp h with rfl | hmem
      · exact ⟨0, rfl, hne, rfl⟩
      · exact hlater hmem

/-- Statements bear numbers that go up from the first one. -/
theorem exists_numbers (number : Nat) (contents : List (List Text)) :
    ∃ numbers : List Nat,
      (numbered number contents).map Statement.index = numbers.map (fun n : Nat => some (n : Int)) ∧
        numbers.Pairwise (· < ·) ∧ ∀ n ∈ numbers, number ≤ n := by
  induction contents generalizing number with
  | nil => exact ⟨[], rfl, .nil, by simp⟩
  | cons content rest ih =>
    obtain ⟨numbers, hmap, hsorted, hfrom⟩ := ih (number + 1)
    rw [numbered]
    split
    · refine ⟨numbers, hmap, hsorted, ?_⟩
      intro n hn
      have := hfrom n hn
      omega
    · refine ⟨number :: numbers, by simp [hmap], ?_, ?_⟩
      · apply List.pairwise_cons.mpr
        exact ⟨hfrom, hsorted⟩
      · intro n hn
        rcases List.mem_cons.mp hn with rfl | hlater
        · exact Nat.le_refl n
        · have := hfrom n hlater
          omega

theorem holds_of_read {source : Text} {statements : List Statement}
    (h : read source = .ok statements) {s : Statement} (hs : s ∈ statements) :
    ∃ n : Nat, s.index = some (n : Int) ∧ Holds source n s.content := by
  have hfree : ∀ line ∈ lines source, '\n' ∉ line := fun line => Text.not_mem_of_mem_splitOn
  obtain ⟨contents, hcontents, rfl⟩ := (readLines_eq_ok_iff hfree).mp h
  obtain ⟨k, hcontent, hne, hindex⟩ := exists_of_mem_numbered hs
  obtain ⟨hlength, hat⟩ := List.getElem?_eq_some_iff.mp hcontent
  have hline : k < (lines source).length := by
    rw [hcontents.length_eq]
    exact hlength
  refine ⟨1 + k, hindex, k, (lines source).get ⟨k, hline⟩, Nat.add_comm 1 k,
    List.getElem?_eq_getElem hline, ?_, hne⟩
  rw [← hat]
  exact hcontents.get hline hlength

theorem exists_numbers_of_read {source : Text} {statements : List Statement}
    (h : read source = .ok statements) :
    ∃ numbers : List Nat,
      statements.map Statement.index = numbers.map (fun n : Nat => some (n : Int)) ∧
        numbers.Pairwise (· < ·) := by
  have hfree : ∀ line ∈ lines source, '\n' ∉ line := fun line => Text.not_mem_of_mem_splitOn
  obtain ⟨contents, -, rfl⟩ := (readLines_eq_ok_iff hfree).mp h
  obtain ⟨numbers, hmap, hsorted, -⟩ := exists_numbers 1 contents
  exact ⟨numbers, hmap, hsorted⟩

end Source

/-! ### What is recorded of one statement -/

/-- The diagnostic is made in the name of the interpreter, about this place of this file. -/
structure Diagnostic.IsAbout (d : Diagnostic) (file : Option Text) (index : Option Int) : Prop where
  component_eq : d.component = "DyeInterpreter".toList
  file_eq : d.file = file
  index_eq : d.index = index

theorem Remark.isAbout {file : Option Text} {index : Option Int} {remark : Remark}
    {d : Diagnostic} (h : (remark.event file index).diagnostic? = some d) :
    d.IsAbout file index := by
  cases remark with
  | unknownTag tag => cases h; exact ⟨rfl, rfl, rfl⟩
  | otherVersion version => cases h; exact ⟨rfl, rfl, rfl⟩
  | dyegestEnabled => cases h; exact ⟨rfl, rfl, rfl⟩
  | ignored keyword => cases h
  | undefinedClass name => cases h

namespace State

theorem isAbout_of_mem_log {file : Option Text} {s : State} {statement : Statement}
    {d : Diagnostic} (h : d ∈ (s.interpret file statement).log) :
    d.IsAbout file statement.index := by
  rw [interpret_eq] at h
  obtain ⟨event, hevent, hd⟩ := List.mem_filterMap.mp h
  cases hplan : s.context.plan statement.content with
  | error fault =>
    rw [hplan] at hevent
    obtain rfl := List.mem_singleton.mp hevent
    cases hd
    exact ⟨rfl, rfl, rfl⟩
  | ok plan =>
    rw [hplan] at hevent
    obtain ⟨remark, -, rfl⟩ := List.mem_map.mp hevent
    exact Remark.isAbout hd

/-- Either nothing is recorded of a statement, or one diagnostic about it. -/
theorem log_interpret_cases (file : Option Text) (s : State) (statement : Statement) :
    (s.interpret file statement).log = [] ∨
      ∃ d : Diagnostic, d.IsAbout file statement.index ∧
        (s.interpret file statement).log = [d] := by
  have hlength := length_log_interpret_le file s statement
  cases hlog : (s.interpret file statement).log with
  | nil => exact Or.inl rfl
  | cons d rest =>
    rw [hlog, List.length_cons] at hlength
    obtain rfl : rest = [] := List.length_eq_zero_iff.mp (by omega)
    refine Or.inr ⟨d, ?_, rfl⟩
    apply isAbout_of_mem_log
    rw [hlog]
    exact List.mem_singleton_self d

/-- A statement has an error recorded for it exactly if its handlers do not get through. -/
theorem not_fails_iff {file : Option Text} {s : State} {statement : Statement} :
    s.fails file statement = false ↔
      ∃ p, (Action.execute statement.content).run { state := s } = .ok () p := by
  rw [Bool.eq_false_iff, Ne, fails_iff, Action.run_execute]
  cases s.context.plan statement.content with
  | error fault => simp [Progress.settle]
  | ok plan => simp [Progress.settle]

end State

/-! ### What is recorded of a run -/

namespace Run

/-- The indices in the log are those of some of the statements, in the same order. -/
theorem indices_log_sublist (file : Option Text) (start : State) (statements : List Statement) :
    ((Run.statements file start statements).log.map Diagnostic.index).Sublist
      (statements.map Statement.index) := by
  induction statements generalizing start with
  | nil => exact List.Sublist.refl []
  | cons statement rest ih =>
    have hlater := ih (start.interpret file statement).state
    rw [log_statements] at hlater ⊢
    rw [visits, List.flatMap_cons, List.map_append, List.map_cons]
    rcases State.log_interpret_cases file start statement with hnone | ⟨d, habout, hone⟩
    · rw [hnone]
      exact hlater.cons _
    · rw [hone, List.map_singleton, habout.index_eq]
      exact hlater.cons_cons _

theorem isOk_log_iff (file : Option Text) (start : State) (statements : List Statement) :
    (Run.statements file start statements).log.isOk = true ↔
      ∀ v ∈ visits file start statements, v.1.fails file v.2 = false := by
  rw [log_statements, Log.isOk, List.any_flatMap, Bool.not_eq_true', List.any_eq_false]
  simp only [Bool.not_eq_true]
  exact Iff.rfl

end Run

namespace Compilation

/-- **Diagnostics line up with the source.**  A source that can be read compiles, and the log is
    made up of what its statements record one after the other.  Each of them records at most one
    diagnostic, in the name of the interpreter, about the file that is compiled and about the
    line, counted from one, that the tokens of the statement stand in.  So the indices in the log
    are numbers of lines that hold a token and go strictly up, and the compilation is in order
    exactly if every statement gets through. -/
theorem diagnostics_line_up (options : Options) {source : Text} {statements : List Statement}
    (hread : Source.read source = .ok statements) :
    let file := options.sourceName
    let start : State := { context := { modes := { strict := options.strict } } }
    let visits := Run.visits file start statements
    visits.map Prod.snd = statements ∧
    (∀ statement ∈ statements, ∃ n : Nat, statement.index = some (n : Int) ∧
      Source.Holds source n statement.content) ∧
    ∃ compilation, ofSource options source = .ok compilation ∧
      compilation.run.log = (visits.flatMap fun v => (v.1.interpret file v.2).log) ∧
      (∀ v ∈ visits, (v.1.interpret file v.2).log.length ≤ 1 ∧
        ∀ d ∈ (v.1.interpret file v.2).log, d.IsAbout file v.2.index) ∧
      (∃ numbers : List Nat,
        compilation.run.log.map Diagnostic.index = numbers.map (fun n : Nat => some (n : Int)) ∧
          numbers.Pairwise (· < ·) ∧ ∀ n ∈ numbers, ∃ content, Source.Holds source n content) ∧
      (compilation.isOk = true ↔ ∀ v ∈ visits, ∃ p,
        (Action.execute v.2.content).run { state := v.1 } = .ok () p) := by
  intro file start visits
  have hholds : ∀ statement ∈ statements, ∃ n : Nat, statement.index = some (n : Int) ∧
      Source.Holds source n statement.content := fun statement => Source.holds_of_read hread
  have hfilled : (interpret options statements).state.sheet.Filled :=
    Run.filled_statements file { strict := options.strict } statements
  obtain ⟨css, hcss⟩ := hfilled.render options.minify
  refine ⟨Run.map_snd_visits file start statements, hholds, _, ofSource_of_render hread hcss,
    Run.log_statements file start statements, ?_, ?_, ?_⟩
  · intro v _
    exact ⟨State.length_log_interpret_le file v.1 v.2, fun d => State.isAbout_of_mem_log⟩
  · obtain ⟨all, hall, hsorted⟩ := Source.exists_numbers_of_read hread
    have hsublist := Run.indices_log_sublist file start statements
    rw [hall] at hsublist
    obtain ⟨numbers, hnumbers, hlog⟩ := List.sublist_map_iff.mp hsublist
    refine ⟨numbers, hlog, hsorted.sublist hnumbers, ?_⟩
    intro n hn
    -- the number is the index of some statement, which is the line that it is read from
    have hmem : some (n : Int) ∈ statements.map Statement.index := by
      rw [hall]
      exact List.mem_map_of_mem (hnumbers.subset hn)
    obtain ⟨statement, hstatement, hindex⟩ := List.mem_map.mp hmem
    obtain ⟨m, hm, hstands⟩ := hholds statement hstatement
    obtain rfl : m = n := by
      rw [hm] at hindex
      exact Int.ofNat.inj (Option.some.inj hindex)
    exact ⟨statement.content, hstands⟩
  · change (Run.statements file start statements).log.isOk = true ↔ _
    rw [Run.isOk_log_iff]
    simp only [State.not_fails_iff]
    exact Iff.rfl

/-- Line endings of two characters, a comment, a blank line, and statements that are not
    supported, only remarked on, carried out and lacking a selector. -/
theorem diagnostics_line_up_mixed :
    let options : Options := { sourceName := some "theme.dye".toList }
    let source := "// colors\r\n@@ x\r\n\t\r\n!version 9\n\n$ .a top 1px // ok\n$".toList
    let statements : List Statement :=
      [{ content := ["@@".toList, "x".toList], index := some 2 },
       { content := ["!version".toList, "9".toList], index := some 4 },
       { content := ["$".toList, ".a".toList, "top".toList, "1px".toList], index := some 6 },
       { content := ["$".toList], index := some 7 }]
    Source.read source = .ok statements ∧
      ∃ compilation, ofSource options source = .ok compilation ∧
        compilation.run.log.map Diagnostic.index = [some 2, some 4, some 7] ∧
        (∃ numbers : List Nat,
          compilation.run.log.map Diagnostic.index = numbers.map (fun n : Nat => some (n : Int)) ∧
            numbers.Pairwise (· < ·) ∧ ∀ n ∈ numbers, ∃ content, Source.Holds source n content) ∧
        compilation.isOk = false := by
  intro options source statements
  have hread : Source.read source = .ok statements := by decide +kernel
  have hindices : (ofSource options source).toOption.map (fun c =>
      (c.run.log.map Diagnostic.index, c.isOk)) = some ([some 2, some 4, some 7], false) := by
    decide +kernel
  obtain ⟨-, -, compilation, hcompiles, -, -, hnumbers, -⟩ := diagnostics_line_up options hread
  rw [hcompiles] at hindices
  have hpair := Option.some.inj hindices
  exact ⟨hread, compilation, hcompiles, congrArg Prod.fst hpair, hnumbers, congrArg Prod.snd hpair⟩

end Compilation

end Dyehouse
