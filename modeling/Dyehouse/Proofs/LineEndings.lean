import Dyehouse.Command.Outcome
import Dyehouse.Proofs.Provenance

/-!
# Line endings

A line may end in a newline or in a carriage return and a newline, and a source may mix the two.
Nothing of it shows: the carriage return is the last character of its line, and there it ends a
word, is part of a comment, or leaves a literal as open as it was.  Whether a line can be read, as
which tokens, and which character is stray at which column, is the same without it
(`Line.tokens_append_return`).

The command line goes further and takes a lone carriage return for a newline as well.  On sources
in which every carriage return stands before a newline there is none, so it reads them as they
are.
-/

namespace Dyehouse

/-! ### Lines -/

namespace Line

/-- The stray character on a line that has a carriage return added at its end. -/
def Stray.returned (stray : Stray) : Stray :=
  { stray with following := stray.following ++ ['\r'] }

/-- A carriage return closes no literal. -/
theorem literal?_append_return (t : Text) :
    literal? (t ++ ['\r']) = (literal? t).map fun cut => (cut.1, cut.2 ++ ['\r']) := by
  fun_induction literal? t with
  | case1 => rfl
  | case2 rest => exact literal?_quote (rest ++ ['\r'])
  | case3 => rfl
  | case4 _ d rest ih =>
    rw [List.cons_append, List.cons_append, literal?_pair, ih, Option.map_map, Option.map_map]
    rfl
  | case5 c rest hquote hbackslash ih =>
    rw [List.cons_append, literal?_plain hquote hbackslash, ih, Option.map_map, Option.map_map]
    rfl

theorem head?_append_return {t : Text} (h : (t ++ ['\r']).head? = some '/') :
    t.head? = some '/' := by
  cases t with
  | nil => cases h
  | cons c rest => exact h

/-- The carriage return does not show after a literal if it does not show after what follows the
    literal. -/
theorem tokens_quote_append_return {rest : Text}
    (h : ∀ inside after, literal? rest = some (inside, after) →
      tokens (after ++ ['\r']) = (tokens after).mapError Stray.returned) :
    tokens ('"' :: (rest ++ ['\r'])) = (tokens ('"' :: rest)).mapError Stray.returned := by
  rw [tokens_quote, tokens_quote, literal?_append_return]
  cases hliteral : literal? rest with
  | none => rfl
  | some cut =>
    simp only [Option.map_some, h cut.1 cut.2 hliteral]
    cases tokens cut.2 <;> rfl

theorem tokens_wordChar_append_return {c : Char} {rest : Text} (hc : isWordChar c = true)
    (hcomment : ¬ (c = '/' ∧ rest.head? = some '/'))
    (h : tokens (rest.dropWhile isWordChar ++ ['\r']) =
      (tokens (rest.dropWhile isWordChar)).mapError Stray.returned) :
    tokens (c :: (rest ++ ['\r'])) = (tokens (c :: rest)).mapError Stray.returned := by
  have hcomment' : ¬ (c = '/' ∧ (rest ++ ['\r']).head? = some '/') := fun hslash =>
    hcomment ⟨hslash.1, head?_append_return hslash.2⟩
  have hword := word_append_stop '\r' (by decide) rest
  rw [tokens_wordChar hc hcomment', tokens_wordChar hc hcomment, hword.1, hword.2, h]
  cases tokens (rest.dropWhile isWordChar) <;> rfl

/-- **A carriage return at the end of a line does not show.**  The tokens are the same, or the
    same character is stray. -/
theorem tokens_append_return {line : Text} (hnewline : '\n' ∉ line) (hreturn : '\r' ∉ line) :
    tokens (line ++ ['\r']) = (tokens line).mapError Stray.returned := by
  -- by the length, since reading goes on behind a whole literal or word
  induction hlength : line.length using Nat.strong_induction_on generalizing line with
  | _ n ih =>
    subst hlength
    cases line with
    | nil => rw [List.nil_append, tokens_return, tokens_nil, Except.mapError]
    | cons c rest =>
      rw [List.mem_cons, not_or] at hnewline hreturn
      have hlater : ∀ after, after.length ≤ rest.length → after ⊆ rest →
          tokens (after ++ ['\r']) = (tokens after).mapError Stray.returned := by
        intro after hle hsub
        exact ih after.length (Nat.lt_succ_of_le hle) (fun hmem => hnewline.2 (hsub hmem))
          (fun hmem => hreturn.2 (hsub hmem)) rfl
      rw [List.cons_append]
      by_cases hgap : isGap c = true
      · rw [tokens_gap hgap, tokens_gap hgap]
        exact hlater rest (Nat.le_refl _) (List.Subset.refl _)
      by_cases hcomment : c = '/' ∧ rest.head? = some '/'
      · obtain ⟨rfl, hslash⟩ := hcomment
        obtain ⟨others, rfl⟩ := List.head?_eq_some_iff.mp hslash
        rw [List.cons_append, tokens_comment, tokens_comment, Except.mapError]
      by_cases hquote : c = '"'
      · subst hquote
        apply tokens_quote_append_return
        intro inside after hliteral
        apply hlater after (Nat.le_of_lt (length_literal? hliteral))
        rw [(inside_of_literal? hnewline.2 hliteral).1]
        exact fun d hd => List.mem_append_right _ (List.mem_cons_of_mem _ hd)
      by_cases hblank : Text.isBlank c = true
      · rw [Bool.not_eq_true] at hgap
        have hending : ∀ t : Text, ¬ (c = '\r' ∧ t = []) := fun _ h => hreturn.1 h.1.symm
        rw [tokens_blank hblank hgap (hending _), tokens_blank hblank hgap (hending _)]
        rfl
      · rw [Bool.not_eq_true] at hblank
        apply tokens_wordChar_append_return (isWordChar_iff.mpr ⟨hblank, hquote⟩) hcomment
        exact hlater _ (length_dropWhile_le _ _) (List.dropWhile_subset _)

end Line

/-! ### Sources -/

namespace Source

/-- Every carriage return stands directly before a newline. -/
def IsPaired : Text → Prop
  | [] => True
  | c :: rest => (c = '\r' → rest.head? = some '\n') ∧ IsPaired rest

instance decidableIsPaired : DecidablePred IsPaired
  | [] => isTrue trivial
  | _ :: rest =>
    have := decidableIsPaired rest
    inferInstanceAs (Decidable (_ ∧ _))

theorem lines_cons_newline (rest : Text) : lines ('\n' :: rest) = [] :: lines rest := by
  rw [lines, List.splitOn_cons_eq_if_modifyHead, if_pos (by decide)]
  rfl

/-- A character that is no newline goes to the front of the first line. -/
theorem exists_lines_cons {c : Char} (h : c ≠ '\n') (rest : Text) :
    ∃ line others, lines rest = line :: others ∧ lines (c :: rest) = (c :: line) :: others := by
  obtain ⟨line, others, hrest⟩ := List.exists_cons_of_ne_nil (List.splitOn_ne_nil '\n' rest)
  refine ⟨line, others, hrest, ?_⟩
  rw [lines, List.splitOn_cons_eq_if_modifyHead, if_neg (by simpa using h), hrest]
  rfl

/-- Without the carriage returns before newlines, the lines are without the carriage returns that
    end them. -/
theorem lines_dropBefore {source : Text} (h : IsPaired source) :
    lines (Text.dropBefore '\r' '\n' source) = (lines source).map Line.body := by
  induction source with
  | nil => rfl
  | cons c rest ih =>
    by_cases hreturn : c = '\r'
    · -- the newline that must follow cuts off a line of the carriage return alone
      obtain ⟨later, rfl⟩ := List.head?_eq_some_iff.mp (h.1 hreturn)
      subst hreturn
      have ih := ih h.2
      rw [Text.dropBefore_cons_of_ne '\n' (by decide)] at ih
      obtain ⟨line, others, hlater, hlines⟩ :=
        exists_lines_cons (c := '\r') (by decide) ('\n' :: later)
      rw [Text.dropBefore_pair, ih, hlines, hlater]
      rw [lines_cons_newline] at hlater
      cases hlater
      rfl
    · rw [Text.dropBefore_cons_of_ne '\n' hreturn]
      by_cases hnewline : c = '\n'
      · rw [hnewline, lines_cons_newline, lines_cons_newline, ih h.2]
        rfl
      · obtain ⟨line, others, hrest, hlines⟩ := exists_lines_cons hnewline rest
        obtain ⟨first, later, hdropped, hlines'⟩ :=
          exists_lines_cons hnewline (Text.dropBefore '\r' '\n' rest)
        have ih := ih h.2
        rw [hrest, hdropped, List.map_cons, List.cons.injEq] at ih
        rw [hlines, hlines', List.map_cons, Line.body_cons hreturn, ih.1, ih.2]

theorem unifyNewlines_eq_dropBefore {source : Text} (h : IsPaired source) :
    Text.unifyNewlines source = Text.dropBefore '\r' '\n' source := by
  fun_induction Text.unifyNewlines source with
  | case1 => rfl
  | case2 rest ih => rw [Text.dropBefore_pair, ih h.2.2]
  | case3 rest hlone =>
    obtain ⟨later, rfl⟩ := List.head?_eq_some_iff.mp (h.1 rfl)
    exact absurd rfl (hlone later)
  | case4 c rest _ hc ih => rw [Text.dropBefore_cons_of_ne '\n' hc, ih h.2]

/-- Lines that end in at most one carriage return, and have none elsewhere, are read as without
    it. -/
theorem readLines_map_body (number : Nat) {lines : List Text}
    (h : ∀ line ∈ lines, '\n' ∉ line ∧ '\r' ∉ Line.body line) :
    readLines number (lines.map Line.body) = readLines number lines := by
  induction lines generalizing number with
  | nil => rfl
  | cons line rest ih =>
    rw [List.forall_mem_cons] at h
    obtain ⟨⟨hnewline, hreturn⟩, hrest⟩ := h
    rw [List.map_cons, readLines, readLines, ih (number + 1) hrest]
    obtain ⟨ending, rfl | rfl, hline⟩ := Line.exists_body_append line
    · rw [List.append_nil] at hline
      rw [← hline]
    · have hbody : '\n' ∉ Line.body line := by
        rw [hline] at hnewline
        exact fun hmem => hnewline (List.mem_append_left _ hmem)
      have hread := Line.tokens_append_return hbody hreturn
      rw [← hline] at hread
      rw [hread]
      cases htokens : Line.tokens (Line.body line) with
      | ok content => rfl
      | error stray =>
        have hlength := congrArg List.length hline
        have hcolumn : columnOf line stray.returned = columnOf (Line.body line) stray := by
          rw [List.length_append] at hlength
          rw [columnOf, columnOf, hlength, Line.Stray.returned, List.length_append,
            Nat.add_sub_add_right]
        simp only [Except.mapError, hcolumn]
        rfl

theorem read_dropBefore {source : Text} (h : IsPaired source) :
    read (Text.dropBefore '\r' '\n' source) = read source := by
  rw [read, lines_dropBefore h]
  apply readLines_map_body
  intro line hline
  refine ⟨Text.not_mem_of_mem_splitOn hline, ?_⟩
  have hbody : Line.body line ∈ lines (Text.dropBefore '\r' '\n' source) := by
    rw [lines_dropBefore h]
    exact List.mem_map_of_mem hline
  have hfree := Text.not_mem_unifyNewlines source
  rw [unifyNewlines_eq_dropBefore h] at hfree
  exact fun hmem => hfree (Text.mem_of_mem_splitOn hbody hmem)

end Source

/-! ### Compilations and commands -/

theorem Compilation.ofSource_dropBefore {source : Text} (h : Source.IsPaired source)
    (options : Options) :
    ofSource options (Text.dropBefore '\r' '\n' source) = ofSource options source := by
  rw [ofSource, ofSource, Source.read_dropBefore h]

theorem Command.Job.onText_dropBefore {source : Text} (h : Source.IsPaired source)
    (look : Text → Entry) (job : Job) :
    job.onText look (Text.dropBefore '\r' '\n' source) = job.onText look source := by
  simp only [onText, compiling, Compilation.ofSource_dropBefore h, Source.read_dropBefore h]

/-- Text that is encoded and decoded again is what it was. -/
theorem Command.Job.onBytes_toUTF8 (look : Text → Entry) (job : Job) (source : Text) :
    job.onBytes look (String.ofList source).toUTF8 =
      job.onText look (Text.unifyNewlines source) := by
  have hdecode : String.fromUTF8? (String.ofList source).toUTF8 = some (String.ofList source) :=
    dif_pos (String.ofList source).isValidUTF8
  simp only [onBytes, hdecode, String.toList_ofList]

/-- **Line endings make no difference.**  Let every carriage return of a source stand directly
    before a newline, in whatever mixture with newlines alone.  Then the source and the source
    with `\n` for every `\r\n` are read as the same statements with the same indices, or cannot be
    read for the same character at the same line and column, and so with the same complaint; and
    they have the same compilation under all options.  That text is also what a command makes of
    the file before it reads it, so every command does with the bytes of the file what it does
    with the source as it stands. -/
theorem Source.line_endings_make_no_difference (source : Text) (h : IsPaired source) :
    let plain := Text.dropBefore '\r' '\n' source
    read source = read plain ∧
      (∀ options : Options,
        Compilation.ofSource options source = Compilation.ofSource options plain) ∧
      Text.unifyNewlines source = plain ∧
      ∀ (look : Text → Command.Entry) (job : Command.Job),
        job.onBytes look (String.ofList source).toUTF8 = job.onText look source := by
  intro plain
  refine ⟨(read_dropBefore h).symm, ?_, unifyNewlines_eq_dropBefore h, ?_⟩
  · intro options
    exact (Compilation.ofSource_dropBefore h options).symm
  · intro look job
    rw [Command.Job.onBytes_toUTF8, unifyNewlines_eq_dropBefore h,
      Command.Job.onText_dropBefore h]

/-- A carriage return after a comment, after a literal, after blanks, on a line of its own, and
    behind the backslash of a literal that is not closed; one line ends in a newline alone. -/
theorem Source.line_endings_make_no_difference_mixed :
    let source : Text := "// c\r\n@ a \"b\\\\\"\r\n\t\r\n\r\n$ .x\n".toList
    let statements : List Statement :=
      [{ content := ["@".toList, "a".toList, "b\\".toList], index := some 2 },
       { content := ["$".toList, ".x".toList], index := some 5 }]
    let unclosed : Text := source ++ "w \"open\\\r\nz".toList
    let stray : Unreadable := { char := '"', line := 6, column := 3 }
    (IsPaired source ∧ read source = .ok statements ∧
      read "// c\n@ a \"b\\\\\"\n\t\n\n$ .x\n".toList = .ok statements) ∧
    (IsPaired unclosed ∧ read unclosed = .error stray ∧
      read "// c\n@ a \"b\\\\\"\n\t\n\n$ .x\nw \"open\\\nz".toList = .error stray ∧
      Command.Job.onBytes (fun _ => .absent) { verb := .check, operands := ["a.dye".toList] }
        (String.ofList unclosed).toUTF8 = .unreadable stray) := by
  intro source statements unclosed stray
  have hsource : IsPaired source := by decide
  have hopen : IsPaired unclosed := by decide
  have hread : read source = .ok statements := by decide +kernel
  have hstray : read unclosed = .error stray := by decide +kernel
  obtain ⟨hplain, -⟩ := line_endings_make_no_difference source hsource
  obtain ⟨hplain', -, -, hcommand⟩ := line_endings_make_no_difference unclosed hopen
  refine ⟨⟨hsource, hread, hplain.symm.trans hread⟩, hopen, hstray, hplain'.symm.trans hstray, ?_⟩
  rw [hcommand]
  have hcompile : Compilation.ofSource
      (Command.Job.options { verb := .check, operands := ["a.dye".toList] }) unclosed =
        .error (.unreadable stray) := by
    rw [Compilation.ofSource, hstray]
  simp only [Command.Job.onText, Command.Job.compiling, hcompile]

end Dyehouse
