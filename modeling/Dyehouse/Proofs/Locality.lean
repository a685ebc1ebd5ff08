import Dyehouse.Proofs.Lexing

/-!
# Reading is local to lines

Taken apart as one text, a source gives what it gives when it is read line by line
(`Source.parse_eq_read`).  One line, ended by a newline, is taken apart as `Line.tokens` takes it
apart: the first character decides which terminal can be taken, and the newline at the end closes
no literal, belongs to no word, and makes a carriage return before it part of the line ending.
Whole sources follow because nothing crosses a newline.

Line locality (`Source.read_line_local`) is proved of the source as one text: of two texts with a
newline between them the first is taken to its end before the second is looked at, and the second
is taken as if it stood alone, further down.
-/

namespace Dyehouse

namespace Source

namespace Terminal

/-! ### What a text starts with -/

/-- Whether what a terminal matches may start with a character. -/
def starts : Terminal → Char → Bool
  | comment, c => c == '/'
  | literal, c => c == '"'
  | word, c => Line.isWordChar c
  | ending, c => c == '\r' || c == '\n'
  | gap, c => Line.isGap c

theorem starts_of_accepts {kind : Terminal} {c : Char} {t : Text}
    (h : kind.accepts (c :: t) = true) : kind.starts c = true := by
  cases kind with
  | comment =>
    rw [accepts, Bool.and_eq_true, List.isPrefixOf_cons_cons, Bool.and_eq_true] at h
    rw [starts, beq_iff_eq]
    exact (beq_iff_eq.mp h.1.1).symm
  | literal =>
    rw [accepts, Bool.and_eq_true] at h
    simpa [starts] using h.1
  | word =>
    rw [accepts, Bool.and_eq_true, List.all_cons, Bool.and_eq_true] at h
    exact h.2.1
  | ending =>
    rw [accepts, Bool.or_eq_true, beq_iff_eq, beq_iff_eq] at h
    rw [starts, Bool.or_eq_true, beq_iff_eq, beq_iff_eq]
    rcases h with h | h
    · exact Or.inr (List.cons.inj h).1
    · exact Or.inl (List.cons.inj h).1
  | gap =>
    rw [accepts, Bool.and_eq_true, List.all_cons, Bool.and_eq_true] at h
    exact h.2.1

theorem longest?_of_not_starts {kind : Terminal} {c : Char} (h : kind.starts c = false)
    (rest : Text) : Text.longest? kind.accepts (c :: rest) = none := by
  apply Text.longest?_eq_none
  rintro (_ | ⟨d, taken⟩) after hsplit haccepts
  · rw [accepts_nil] at haccepts
    cases haccepts
  · obtain ⟨rfl, -⟩ := List.cons.inj hsplit
    rw [starts_of_accepts haccepts] at h
    cases h

/-- Comments apart, no two terminals start alike. -/
theorem eq_of_starts {kind other : Terminal} {c : Char} (hkind : kind ≠ comment)
    (hother : other ≠ comment) (h : kind.starts c = true) (h' : other.starts c = true) :
    kind = other := by
  have hnone : Line.isWordChar '"' = false ∧ Line.isWordChar '\r' = false ∧
      Line.isWordChar '\n' = false ∧ Line.isWordChar ' ' = false ∧
      Line.isWordChar '\t' = false := by decide
  cases kind <;> cases other <;> grind [starts, Line.isGap]

theorem longest?_comment {c : Char} {rest : Text} (h : ¬ (c = '/' ∧ rest.head? = some '/')) :
    Text.longest? comment.accepts (c :: rest) = none := by
  apply Text.longest?_eq_none
  intro taken after hsplit haccepts
  rw [accepts, Bool.and_eq_true, List.isPrefixOf_iff_prefix] at haccepts
  obtain ⟨⟨more, rfl⟩, -⟩ := haccepts
  obtain ⟨rfl, rfl⟩ := List.cons.inj hsplit
  exact h ⟨rfl, rfl⟩

theorem next?_eq_longest? {t : Text} (kind : Terminal)
    (h : ∀ other, other ≠ kind → Text.longest? other.accepts t = none) :
    next? t = (Text.longest? kind.accepts t).map fun cut => (kind, cut) := by
  cases hcut : Text.longest? kind.accepts t with
  | none => cases kind <;> simp [next?, order, h, hcut]
  | some cut => cases kind <;> simp [next?, order, h, hcut]

/-- The first character decides what can be taken, unless a comment starts there. -/
theorem next?_of_starts (kind : Terminal) {c : Char} {rest : Text} (hkind : kind ≠ comment)
    (hc : kind.starts c = true) (hcomment : ¬ (c = '/' ∧ rest.head? = some '/')) :
    next? (c :: rest) =
      (Text.longest? kind.accepts (c :: rest)).map fun cut => (kind, cut) := by
  apply next?_eq_longest?
  intro other hne
  by_cases hother : other = comment
  · rw [hother]
    exact longest?_comment hcomment
  · apply longest?_of_not_starts
    by_contra hstarts
    exact hne (eq_of_starts hother hkind (by simpa using hstarts) hc)

theorem next?_newline : next? ['\n'] = some (ending, ['\n'], []) := by
  decide

/-- A terminal that matches runs of characters of a class takes the longest run. -/
theorem longest?_run {p : Char → Bool} {c : Char} (hc : p c = true) (rest : Text) :
    Text.longest? (fun t => !t.isEmpty && t.all p) (c :: rest) =
      some (c :: rest.takeWhile p, rest.dropWhile p) := by
  have hsplit : c :: rest = (c :: rest.takeWhile p) ++ rest.dropWhile p := by
    rw [List.cons_append, List.takeWhile_append_dropWhile]
  rw [hsplit]
  apply Text.longest?_append
  · simp [hc]
  · intro more others hafter hmore
    cases more with
    | nil => rfl
    | cons d more =>
      have hstop := List.head?_dropWhile_not p rest
      rw [hafter, List.cons_append, List.head?_cons] at hstop
      rw [Bool.and_eq_true, List.all_eq_true] at hmore
      exact absurd (hmore.2 d (by simp)) (by simp [hstop])

theorem next?_gap {c : Char} (hc : Line.isGap c = true) (rest : Text) :
    next? (c :: rest) = some (gap, c :: rest.takeWhile Line.isGap, rest.dropWhile Line.isGap) := by
  have hcomment : ¬ (c = '/' ∧ rest.head? = some '/') := by
    rintro ⟨rfl, -⟩
    exact absurd hc (by decide)
  have hrun : Text.longest? gap.accepts (c :: rest) = _ := longest?_run hc rest
  rw [next?_of_starts gap (by decide) hc hcomment, hrun]
  rfl

theorem next?_word {c : Char} {rest : Text} (hc : Line.isWordChar c = true)
    (hcomment : ¬ (c = '/' ∧ rest.head? = some '/')) :
    next? (c :: rest) =
      some (word, c :: rest.takeWhile Line.isWordChar, rest.dropWhile Line.isWordChar) := by
  have hrun : Text.longest? word.accepts (c :: rest) = _ := longest?_run hc rest
  rw [next?_of_starts word (by decide) hc hcomment, hrun]
  rfl

theorem next?_comment {rest : Text} (hfree : '\n' ∉ rest) :
    next? ('/' :: '/' :: (rest ++ ['\n'])) = some (comment, '/' :: '/' :: rest, ['\n']) := by
  have htake : Text.longest? comment.accepts ('/' :: '/' :: (rest ++ ['\n'])) =
      some ('/' :: '/' :: rest, ['\n']) := by
    change Text.longest? comment.accepts (('/' :: '/' :: rest) ++ ['\n']) = _
    apply Text.longest?_append
    · simp only [accepts, Bool.and_eq_true, List.all_eq_true, bne_iff_ne]
      refine ⟨rfl, ?_⟩
      rintro c hc rfl
      simp [hfree] at hc
    · intro more others hmore haccepts
      cases more with
      | nil => rfl
      | cons d more =>
        obtain ⟨rfl, -⟩ := List.cons.inj hmore
        exact absurd List.mem_append_cons_self (newline_not_mem (by decide) haccepts)
  simp [next?, order, htake]

theorem next?_literal {inside : Text} (h : Line.Inside inside) (after : Text) :
    next? ('"' :: (inside ++ '"' :: after)) = some (literal, '"' :: (inside ++ ['"']), after) := by
  have htake : Text.longest? literal.accepts (('"' :: (inside ++ ['"'])) ++ after) =
      some ('"' :: (inside ++ ['"']), after) := by
    apply Text.longest?_append
    · exact accepts_literal_iff.mpr ⟨inside, h, rfl⟩
    · intro more others _ hmore
      rw [accepts, Bool.and_eq_true] at hmore
      have hcloses := hmore.2
      rw [List.cons_append, List.tail_cons, List.append_assoc, List.singleton_append,
        closes_of_inside h, List.isEmpty_iff] at hcloses
      exact hcloses
  have hsplit : '"' :: (inside ++ '"' :: after) = ('"' :: (inside ++ ['"'])) ++ after := by
    simp
  rw [next?_of_starts literal (by decide) (by decide) (by simp), hsplit, htake]
  rfl

/-- The newline closes no literal. -/
theorem next?_quote {rest : Text} (h : Line.literal? rest = none) :
    next? ('"' :: (rest ++ ['\n'])) = none := by
  rw [next?_of_starts literal (by decide) (by decide) (by simp), Text.longest?_eq_none]
  · rfl
  · intro taken after hsplit haccepts
    obtain ⟨inside, hinside, rfl⟩ := accepts_literal_iff.mp haccepts
    rw [List.cons_append] at hsplit
    rcases Text.append_newline_eq_append (List.cons.inj hsplit).2 with ⟨-, hall⟩ | ⟨later, -, rfl⟩
    · exact absurd (List.append_inj' hall rfl).2 (by decide)
    · rw [List.append_assoc, List.singleton_append, Line.literal?_of_inside hinside later] at h
      cases h

/-- Nothing starts with a blank that is no gap, but for a carriage return before the newline. -/
theorem next?_blank {c : Char} {rest : Text} (hblank : Text.isBlank c = true)
    (hgap : Line.isGap c = false) (hfree : '\n' ∉ c :: rest) (hending : ¬ (c = '\r' ∧ rest = [])) :
    next? (c :: (rest ++ ['\n'])) = none := by
  rw [List.mem_cons, not_or] at hfree
  by_cases hreturn : c = '\r'
  · subst hreturn
    rw [next?_of_starts ending (by decide) (by decide) (by simp), Text.longest?_eq_none]
    · rfl
    · intro taken after hsplit haccepts
      rw [accepts, Bool.or_eq_true, beq_iff_eq, beq_iff_eq] at haccepts
      rcases haccepts with rfl | rfl
      · cases hsplit
      · cases rest with
        | nil => exact hending ⟨rfl, rfl⟩
        | cons d others =>
          obtain ⟨rfl, -⟩ := List.cons.inj (List.cons.inj hsplit).2
          exact hfree.2 List.mem_cons_self
  · rw [next?, List.findSome?_eq_none_iff]
    intro kind _
    rw [longest?_of_not_starts]
    · rfl
    · cases kind with
      | comment =>
        rw [starts, beq_eq_false_iff_ne]
        rintro rfl
        exact absurd hblank (by decide)
      | literal =>
        rw [starts, beq_eq_false_iff_ne]
        rintro rfl
        exact absurd hblank (by decide)
      | word => simp [starts, Line.isWordChar, hblank]
      | ending => simp [starts, hreturn, Ne.symm hfree.1]
      | gap => exact hgap

end Terminal

end Source

namespace Line

theorem ne_newline_of_isGap {c : Char} (h : isGap c = true) : c ≠ '\n' := by
  rintro rfl
  exact absurd h (by decide)

/-- A stray character stands on the line. -/
theorem length_following_lt {line : Text} {stray : Stray} (h : tokens line = .error stray) :
    stray.following.length < line.length := by
  fun_induction tokens line with
  | case1 => cases h
  | case2 c rest _ ih => exact Nat.lt_succ_of_lt (ih h)
  | case3 => cases h
  | case4 => cases h
  | case5 rest =>
    cases h
    exact Nat.lt_succ_self _
  | case6 rest inside after hliteral _ other hafter _ _ _ ih =>
    cases h
    exact Nat.lt_succ_of_lt (Nat.lt_trans (ih hafter) (length_literal? hliteral))
  | case7 => cases h
  | case8 c rest =>
    cases h
    exact Nat.lt_succ_self _
  | case9 c rest _ _ _ _ _ _ other hafter ih =>
    cases h
    exact Nat.lt_succ_of_lt (Nat.lt_of_lt_of_le (ih hafter) (length_dropWhile_le _ _))
  | case10 => cases h

end Line

namespace Source

/-! ### One line -/

theorem Place.step_of_ne {c : Char} (h : c ≠ '\n') (place : Place) :
    place.step c = { place with column := place.column + 1 } :=
  if_neg h

theorem Place.after_of_newline_not_mem {t : Text} (h : '\n' ∉ t) (place : Place) :
    place.after t = { place with column := place.column + t.length } := by
  induction t generalizing place with
  | nil => rfl
  | cons c rest ih =>
    rw [List.mem_cons, not_or] at h
    change (place.step c).after rest = _
    rw [ih h.2, step_of_ne (Ne.symm h.1), List.length_cons, Nat.add_assoc, Nat.add_comm 1]

theorem Place.after_append_newline (place : Place) (a : Text) :
    place.after (a ++ ['\n']) = { line := place.line + (1 + a.count '\n'), column := 1 } := by
  induction a generalizing place with
  | nil => rfl
  | cons c rest ih =>
    change (place.step c).after (rest ++ ['\n']) = _
    rw [ih]
    by_cases hc : c = '\n'
    · have hline : place.line + 1 + (1 + rest.count '\n') =
          place.line + (1 + (rest.count '\n' + 1)) := by omega
      rw [step, if_pos hc, hc, List.count_cons_self, ← hline]
    · rw [step_of_ne hc, List.count_cons_of_ne hc]

theorem parseFrom_skip {t taken after : Text} {kind : Terminal}
    (h : Terminal.next? t = some (kind, taken, after)) (hkind : kind = .comment ∨ kind = .gap)
    (pending : List Lexeme) (place : Place) :
    parseFrom pending place t = parseFrom pending (place.after taken) after := by
  unfold parseFrom
  rw [lex_next h]
  rcases hkind with rfl | rfl <;> cases lex (place.after taken) after <;> rfl

theorem parseFrom_token {t taken after : Text} {kind : Terminal}
    (h : Terminal.next? t = some (kind, taken, after)) (hkind : kind = .literal ∨ kind = .word)
    (pending : List Lexeme) (place : Place) :
    parseFrom pending place t =
      parseFrom (pending ++ [{ kind, text := taken, place }]) (place.after taken) after := by
  unfold parseFrom
  rw [lex_next h]
  rcases hkind with rfl | rfl <;> cases lex (place.after taken) after <;> rfl

theorem parseFrom_ending {t taken : Text} (h : Terminal.next? t = some (.ending, taken, []))
    (pending : List Lexeme) (place : Place) :
    parseFrom pending place t = .ok (statement? pending).toList := by
  unfold parseFrom
  rw [lex_next h, lex_nil]
  exact congrArg Except.ok (List.append_nil _)

theorem parseFrom_stray {t : Text} {c : Char} (hhead : t.head? = some c)
    (h : Terminal.next? t = none) (pending : List Lexeme) (place : Place) :
    parseFrom pending place t =
      .error (.stray { char := c, line := place.line, column := place.column }) := by
  unfold parseFrom
  rw [lex_stray hhead h]

/-- Gaps can be skipped one character at a time. -/
theorem parseFrom_gap {c : Char} (hc : Line.isGap c = true) (pending : List Lexeme)
    (place : Place) (rest : Text) :
    parseFrom pending place (c :: rest) = parseFrom pending (place.step c) rest := by
  rw [parseFrom_skip (Terminal.next?_gap hc rest) (.inr rfl)]
  cases rest with
  | nil => rfl
  | cons d others =>
    by_cases hd : Line.isGap d = true
    · rw [parseFrom_skip (Terminal.next?_gap hd others) (.inr rfl),
        List.takeWhile_cons_of_pos hd, List.dropWhile_cons_of_pos hd]
      rfl
    · rw [List.takeWhile_cons_of_neg hd, List.dropWhile_cons_of_neg hd]
      rfl

/-- What a line that starts at the given place comes to, read by its tokens, after tokens of the
    same statement. -/
def readLine (pending : List Lexeme) (place : Place) (line : Text) :
    Except Rejection (List Statement) :=
  match Line.tokens line with
  | .error stray =>
    .error (.stray
      { char := stray.char, line := place.line
        column := place.column + (columnOf line stray - 1) })
  | .ok content => .ok (numbered place.line [pending.map Lexeme.value ++ content])

theorem readLine_gap {c : Char} (hc : Line.isGap c = true) (pending : List Lexeme)
    (place : Place) (rest : Text) :
    readLine pending place (c :: rest) = readLine pending (place.step c) rest := by
  unfold readLine
  rw [Line.tokens_gap hc, Place.step_of_ne (Line.ne_newline_of_isGap hc)]
  cases htokens : Line.tokens rest with
  | ok content => rfl
  | error stray =>
    have hlength := Line.length_following_lt htokens
    have hcolumn : place.column + (columnOf (c :: rest) stray - 1) =
        place.column + 1 + (columnOf rest stray - 1) := by
      rw [columnOf, columnOf, List.length_cons]
      omega
    simp only [hcolumn]

/-- A token at the start of a line is one more token of the statement. -/
theorem readLine_token {taken later : Text} (hfree : '\n' ∉ taken) {lexeme : Lexeme}
    (h : Line.tokens (taken ++ later) = (Line.tokens later).map (lexeme.value :: ·))
    (pending : List Lexeme) (place : Place) :
    readLine pending place (taken ++ later) =
      readLine (pending ++ [lexeme]) (place.after taken) later := by
  unfold readLine
  rw [h, Place.after_of_newline_not_mem hfree]
  cases htokens : Line.tokens later with
  | ok content =>
    simp only [Except.map, List.map_append, List.map_singleton, List.append_assoc,
      List.singleton_append]
  | error stray =>
    have hlength := Line.length_following_lt htokens
    have hcolumn : place.column + (columnOf (taken ++ later) stray - 1) =
        place.column + taken.length + (columnOf later stray - 1) := by
      rw [columnOf, columnOf, List.length_append]
      omega
    simp only [Except.map, hcolumn]

theorem readLine_stray {c : Char} {rest : Text}
    (h : Line.tokens (c :: rest) = .error { char := c, following := rest })
    (pending : List Lexeme) (place : Place) :
    readLine pending place (c :: rest) =
      .error (.stray { char := c, line := place.line, column := place.column }) := by
  unfold readLine
  rw [h]
  simp [columnOf]

/-- What is pending when a line ends without further tokens is the statement of the line. -/
theorem readLine_done {line : Text} (h : Line.tokens line = .ok []) {pending : List Lexeme}
    {place : Place} (hpending : ∀ lexeme ∈ pending, lexeme.place.line = place.line) :
    readLine pending place line = .ok (statement? pending).toList := by
  unfold readLine
  rw [h]
  cases pending with
  | nil => rfl
  | cons first rest =>
    have hfirst := hpending first List.mem_cons_self
    simp [numbered, statement?, hfirst]

/-- The line, ended by a newline, is taken apart as it is read, wherever it stands and whatever
    tokens of its statement come before it. -/
def ReadsLine (line : Text) : Prop :=
  ∀ (pending : List Lexeme) (place : Place),
    (∀ lexeme ∈ pending, lexeme.place.line = place.line) →
      parseFrom pending place (line ++ ['\n']) = readLine pending place line

namespace ReadsLine

theorem gap {c : Char} (hc : Line.isGap c = true) {rest : Text} (h : ReadsLine rest) :
    ReadsLine (c :: rest) := by
  intro pending place hpending
  rw [List.cons_append, parseFrom_gap hc, readLine_gap hc]
  apply h
  rw [Place.step_of_ne (Line.ne_newline_of_isGap hc)]
  exact hpending

theorem token {kind : Terminal} (hkind : kind = .literal ∨ kind = .word) {taken later : Text}
    (hnext : Terminal.next? (taken ++ (later ++ ['\n'])) = some (kind, taken, later ++ ['\n']))
    (hfree : '\n' ∉ taken)
    (htokens : ∀ place, Line.tokens (taken ++ later) =
      (Line.tokens later).map (Lexeme.value { kind, text := taken, place } :: ·))
    (h : ReadsLine later) : ReadsLine (taken ++ later) := by
  intro pending place hpending
  rw [List.append_assoc, parseFrom_token hnext hkind, readLine_token hfree (htokens place)]
  apply h
  rw [Place.after_of_newline_not_mem hfree]
  intro lexeme hlexeme
  rcases List.mem_append.mp hlexeme with hold | hnew
  · exact hpending lexeme hold
  · rw [List.mem_singleton.mp hnew]

theorem stray {c : Char} {rest : Text} (hnext : Terminal.next? (c :: (rest ++ ['\n'])) = none)
    (htokens : Line.tokens (c :: rest) = .error { char := c, following := rest }) :
    ReadsLine (c :: rest) := by
  intro pending place _
  rw [List.cons_append, parseFrom_stray rfl hnext, readLine_stray htokens]

theorem done {line : Text} (hnext : Terminal.next? (line ++ ['\n']) =
    some (.ending, line ++ ['\n'], [])) (htokens : Line.tokens line = .ok []) :
    ReadsLine line := by
  intro pending place hpending
  rw [parseFrom_ending hnext, readLine_done htokens hpending]

theorem comment {rest : Text} (hfree : '\n' ∉ rest) : ReadsLine ('/' :: '/' :: rest) := by
  intro pending place hpending
  rw [List.cons_append, List.cons_append,
    parseFrom_skip (Terminal.next?_comment hfree) (.inl rfl),
    parseFrom_ending Terminal.next?_newline,
    readLine_done (Line.tokens_comment rest) hpending]

theorem literal {inside after : Text} (hinside : Line.Inside inside) (h : ReadsLine after) :
    ReadsLine ('"' :: (inside ++ '"' :: after)) := by
  have hsplit : ∀ t, '"' :: (inside ++ '"' :: t) = ('"' :: (inside ++ ['"'])) ++ t := by
    simp
  rw [hsplit]
  refine token (.inl rfl) ?_ ?_ ?_ h
  · rw [← hsplit]
    exact Terminal.next?_literal hinside (after ++ ['\n'])
  · simp [hinside.newline_not_mem]
  · intro place
    have hvalue : Lexeme.value { kind := .literal, text := '"' :: (inside ++ ['"']), place } =
        Line.unescape inside := by
      simp [Lexeme.value]
    rw [hvalue, ← hsplit, Line.tokens_quote, Line.literal?_of_inside hinside after]

theorem word {c : Char} {rest : Text} (hc : Line.isWordChar c = true)
    (hcomment : ¬ (c = '/' ∧ rest.head? = some '/'))
    (h : ReadsLine (rest.dropWhile Line.isWordChar)) : ReadsLine (c :: rest) := by
  have hsplit : c :: rest =
      (c :: rest.takeWhile Line.isWordChar) ++ rest.dropWhile Line.isWordChar := by
    rw [List.cons_append, List.takeWhile_append_dropWhile]
  have hstop := Line.word_append_stop '\n' (by decide) rest
  rw [hsplit]
  refine token (.inr rfl) ?_ ?_ ?_ h
  · have hslash : ¬ (c = '/' ∧ (rest ++ ['\n']).head? = some '/') := by
      rintro ⟨rfl, hslash⟩
      cases rest with
      | nil => cases hslash
      | cons d others => exact hcomment ⟨rfl, hslash⟩
    rw [← List.append_assoc, ← hsplit, List.cons_append, Terminal.next?_word hc hslash,
      hstop.1, hstop.2]
  · rintro hmem
    rcases List.mem_cons.mp hmem with rfl | hin
    · exact absurd hc (by decide)
    · exact absurd (Line.isWordChar_of_mem_takeWhile hin) (by decide)
  · intro place
    rw [← hsplit]
    exact Line.tokens_wordChar hc hcomment

end ReadsLine

/-- **A line is taken apart as it is read.** -/
theorem readsLine {line : Text} (hfree : '\n' ∉ line) : ReadsLine line := by
  cases line with
  | nil => exact .done Terminal.next?_newline Line.tokens_nil
  | cons c rest =>
    have hrest : '\n' ∉ rest := fun hmem => hfree (List.mem_cons_of_mem _ hmem)
    by_cases hgap : Line.isGap c = true
    · exact .gap hgap (readsLine hrest)
    by_cases hcomment : c = '/' ∧ rest.head? = some '/'
    · obtain ⟨rfl, hslash⟩ := hcomment
      obtain ⟨others, rfl⟩ := List.head?_eq_some_iff.mp hslash
      exact .comment fun hmem => hrest (List.mem_cons_of_mem _ hmem)
    by_cases hquote : c = '"'
    · subst hquote
      cases hliteral : Line.literal? rest with
      | none =>
        refine .stray (Terminal.next?_quote hliteral) ?_
        rw [Line.tokens_quote, hliteral]
      | some cut =>
        obtain ⟨inside, after⟩ := cut
        have hshorter := Line.length_literal? hliteral
        obtain ⟨rfl, hinside⟩ := (Line.literal?_eq_some_iff hrest).mp hliteral
        exact .literal hinside (readsLine fun hmem => hrest (by simp [hmem]))
    by_cases hblank : Text.isBlank c = true
    · rw [Bool.not_eq_true] at hgap
      by_cases hending : c = '\r' ∧ rest = []
      · obtain ⟨rfl, rfl⟩ := hending
        exact .done (by decide) Line.tokens_return
      · exact .stray (Terminal.next?_blank hblank hgap hfree hending)
          (Line.tokens_blank hblank hgap hending)
    · rw [Bool.not_eq_true] at hblank
      have hshorter := Nat.lt_succ_of_le (Line.length_dropWhile_le Line.isWordChar rest)
      refine .word (Line.isWordChar_iff.mpr ⟨hblank, hquote⟩) hcomment (readsLine fun hmem => ?_)
      exact hrest (List.dropWhile_subset _ hmem)
  termination_by line.length

/-! ### Whole sources -/

theorem parseFrom_lines {lines : List Text} (hfree : ∀ line ∈ lines, '\n' ∉ line) (number : Nat) :
    parseFrom [] { line := number, column := 1 } (lines.flatMap (· ++ ['\n'])) =
      (readLines number lines).mapError .stray := by
  induction lines generalizing number with
  | nil =>
    rw [List.flatMap_nil, parseFrom, lex_nil]
    rfl
  | cons line rest ih =>
    rw [List.forall_mem_cons] at hfree
    have hline := readsLine hfree.1 [] { line := number, column := 1 } (by simp)
    rw [List.flatMap_cons, List.append_assoc, List.singleton_append, parseFrom_append_newline,
      Place.after_append_newline, List.count_eq_zero_of_not_mem hfree.1, ih hfree.2, hline]
    unfold readLine
    rw [readLines]
    cases htokens : Line.tokens line with
    | error stray =>
      have hlength := Line.length_following_lt htokens
      have hcolumn : 1 + (columnOf line stray - 1) = columnOf line stray := by
        rw [columnOf]
        omega
      simp only [hcolumn]
      rfl
    | ok content =>
      cases readLines (number + 1) rest with
      | error u => rfl
      | ok statements => cases content <;> rfl

/-- **Taking a source apart as one text is reading it line by line.** -/
theorem parse_eq_read (source : Text) : parse source = (read source).mapError .stray := by
  obtain ⟨cut, hcut⟩ := exists_cut source
  rw [read_eq_readLines hcut, parse, ← hcut.whole]
  exact parseFrom_lines hcut.newlineFree 1

/-! ### Two texts with a newline between them -/

/-- One more newline at the end brings no statement. -/
theorem parse_eq_parseFrom (source : Text) :
    parse source = parseFrom [] Place.start (source ++ ['\n']) := by
  unfold parse ended
  split
  · next hlast =>
    obtain ⟨body, rfl⟩ := List.getLast?_eq_some_iff.mp hlast
    rw [List.append_assoc, List.singleton_append,
      parseFrom_append_newline [] Place.start body ['\n'],
      parseFrom_ending Terminal.next?_newline]
    cases parseFrom [] Place.start (body ++ ['\n']) with
    | error r => rfl
    | ok statements => exact congrArg Except.ok (List.append_nil statements).symm
  · rfl

theorem parse_append_newline (a b : Text) :
    parse (a ++ '\n' :: b) =
      (parse a).bind fun statements =>
        ((parse b).mapError (Rejection.down (1 + a.count '\n'))).map fun later =>
          statements ++ later.map (·.down (1 + a.count '\n')) := by
  have hplace : Place.start.after (a ++ ['\n']) = Place.start.down (1 + a.count '\n') :=
    Place.after_append_newline Place.start a
  rw [parse_eq_parseFrom, List.append_assoc, List.cons_append, parseFrom_append_newline, hplace,
    parseFrom_down, ← parse_eq_parseFrom, ← parse_eq_parseFrom]
  cases parse a with
  | error r => rfl
  | ok statements => cases parse b <;> rfl

theorem parse_eq_ok_iff {source : Text} {statements : List Statement} :
    parse source = .ok statements ↔ read source = .ok statements := by
  rw [parse_eq_read]
  cases read source <;> simp [Except.mapError]

theorem parse_eq_error_iff {source : Text} {u : Unreadable} :
    parse source = .error (.stray u) ↔ read source = .error u := by
  rw [parse_eq_read]
  cases read source <;> simp [Except.mapError]

/-- **Reading is local to lines.**  Reading a source is taking it apart as one text, in which a
    newline is a character like any other; that the last statement is not ended never happens.
    Now let two texts have a newline between them, and let `k` be the number of lines of the first.
    If both can be read, the statements are those of the first and then those of the second, `k`
    lines further down.  If the first cannot be read, neither can the whole, for the same character
    at the same place and so with the same complaint, whatever the second is.  If only the second
    cannot be read, the whole cannot be read for the same character, `k` lines further down. -/
theorem read_line_local :
    (∀ source : Text, parse source = (read source).mapError .stray) ∧
    ∀ a b : Text,
      let k := 1 + a.count '\n'
      (∀ statements later, read a = .ok statements → read b = .ok later →
        read (a ++ '\n' :: b) = .ok (statements ++
          later.map fun s => { s with index := s.index.map (· + (k : Int)) })) ∧
      (∀ u, read a = .error u → read (a ++ '\n' :: b) = .error u) ∧
      ∀ statements u, read a = .ok statements → read b = .error u →
        read (a ++ '\n' :: b) =
          .error { char := u.char, line := u.line + k, column := u.column } := by
  refine ⟨parse_eq_read, ?_⟩
  intro a b k
  have hwhole := parse_append_newline a b
  refine ⟨?_, ?_, ?_⟩
  · intro statements later ha hb
    rw [parse_eq_ok_iff.mpr ha, parse_eq_ok_iff.mpr hb] at hwhole
    exact parse_eq_ok_iff.mp hwhole
  · intro u ha
    rw [parse_eq_error_iff.mpr ha] at hwhole
    exact parse_eq_error_iff.mp hwhole
  · intro statements u ha hb
    rw [parse_eq_ok_iff.mpr ha, parse_eq_error_iff.mpr hb] at hwhole
    exact parse_eq_error_iff.mp hwhole

/-- A first text that ends in a carriage return, which the newline makes a line ending, and a
    second one that fails in its second line. -/
theorem read_line_local_moved :
    let a := "$ \"1\"\r".toList
    let b := "// x\n @ \"y".toList
    let s : Statement := { content := ["$".toList, "1".toList], index := some 1 }
    let u : Unreadable := { char := '"', line := 2, column := 4 }
    (read a = .ok [s] ∧ read b = .error u) ∧
      read (a ++ '\n' :: b) = .error { u with line := 3 } ∧
      read (a ++ '\n' :: a) = .ok [s, { s with index := some 2 }] ∧
      parse (b ++ '\n' :: a) = .error (.stray u) := by
  have ha : read "$ \"1\"\r".toList =
      .ok [{ content := ["$".toList, "1".toList], index := some 1 }] := by
    decide +kernel
  have hb : read "// x\n @ \"y".toList = .error { char := '"', line := 2, column := 4 } := by
    decide +kernel
  have hk : 1 + ("$ \"1\"\r".toList).count '\n' = 1 := by decide
  refine ⟨⟨ha, hb⟩, ?_, ?_, ?_⟩
  · have hwhole := (read_line_local.2 _ _).2.2 _ _ ha hb
    rwa [hk] at hwhole
  · have hwhole := (read_line_local.2 _ _).1 _ _ ha ha
    rwa [hk] at hwhole
  · have hwhole := (read_line_local.2 _ "$ \"1\"\r".toList).2.1 _ hb
    rw [read_line_local.1]
    simp only [hwhole]
    rfl

end Source

end Dyehouse
