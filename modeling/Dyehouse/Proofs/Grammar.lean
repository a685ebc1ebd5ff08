import Mathlib.Data.List.Forall2
import Dyehouse.Proofs.Lines
import Dyehouse.Source.Grammar

/-!
# Reading accepts exactly the grammar

`Line.Derives` says what a line may consist of; `Line.tokens` takes a line apart from left to
right, with a rule for every kind of character that it may meet.  The two agree: a line is
read as some tokens if and only if, without the carriage return that may end it, it stands for
them (`Line.tokens_eq_ok_iff`).  Since reading gives one answer, a line stands for one list of
tokens at most, although nothing in the rules of the grammar says in which order to try them.
Whole sources follow, line by line.
-/

namespace Dyehouse

namespace Line

/-! ### Kinds of characters -/

theorem isBlank_of_isGap {c : Char} (h : isGap c = true) : Text.isBlank c = true := by
  rw [isGap, Bool.or_eq_true, beq_iff_eq, beq_iff_eq] at h
  rcases h with rfl | rfl <;> decide

theorem isWordChar_iff {c : Char} : isWordChar c = true ↔ Text.isBlank c = false ∧ c ≠ '"' := by
  simp [isWordChar]

theorem ne_return_of_isWordChar {c : Char} (h : isWordChar c = true) : c ≠ '\r' := by
  rintro rfl
  exact absurd h (by decide)

theorem isWordChar_of_mem_takeWhile {c : Char} {t : Text} (h : c ∈ t.takeWhile isWordChar) :
    isWordChar c = true :=
  List.all_eq_true.mp List.all_takeWhile c h

/-- A character that belongs to no word ends the word before it. -/
theorem word_append_stop (stop : Char) (hstop : isWordChar stop = false) (t : Text) :
    (t ++ [stop]).takeWhile isWordChar = t.takeWhile isWordChar ∧
      (t ++ [stop]).dropWhile isWordChar = t.dropWhile isWordChar ++ [stop] := by
  induction t with
  | nil => simp [hstop]
  | cons c rest ih =>
    rw [List.cons_append, List.takeWhile_cons, List.takeWhile_cons, List.dropWhile_cons,
      List.dropWhile_cons, ih.1, ih.2]
    split
    · exact ⟨rfl, rfl⟩
    · exact ⟨rfl, rfl⟩

/-! ### Literals -/

theorem literal?_of_inside {inside : Text} (h : Inside inside) (after : Text) :
    literal? (inside ++ '"' :: after) = some (inside, after) := by
  induction h with
  | nil => exact literal?_quote after
  | plain quote backslash newline tail ih =>
    rw [List.cons_append, literal?_plain quote backslash, ih]
    rfl
  | pair newline tail ih =>
    rw [List.cons_append, List.cons_append, literal?_pair, ih]
    rfl

theorem inside_of_literal? {t inside after : Text} (hfree : '\n' ∉ t)
    (h : literal? t = some (inside, after)) : t = inside ++ '"' :: after ∧ Inside inside := by
  fun_induction literal? t generalizing inside after with
  | case1 => cases h
  | case2 rest =>
    cases h
    exact ⟨rfl, .nil⟩
  | case3 => cases h
  | case4 d rest _ ih =>
    obtain ⟨cut, hcut, heq⟩ := Option.map_eq_some_iff.mp h
    cases heq
    simp only [List.mem_cons, not_or] at hfree
    obtain ⟨hrest, hinside⟩ := ih hfree.2.2 hcut
    exact ⟨congrArg ('\\' :: d :: ·) hrest, .pair (Ne.symm hfree.2.1) hinside⟩
  | case5 c rest hquote hbackslash ih =>
    obtain ⟨cut, hcut, heq⟩ := Option.map_eq_some_iff.mp h
    cases heq
    simp only [List.mem_cons, not_or] at hfree
    obtain ⟨hrest, hinside⟩ := ih hfree.2 hcut
    exact ⟨congrArg (c :: ·) hrest, .plain hquote hbackslash (Ne.symm hfree.1) hinside⟩

/-- What is read as a literal is exactly the inside of one, closed by a quote. -/
theorem literal?_eq_some_iff {t inside after : Text} (hfree : '\n' ∉ t) :
    literal? t = some (inside, after) ↔ t = inside ++ '"' :: after ∧ Inside inside := by
  constructor
  · exact inside_of_literal? hfree
  · rintro ⟨rfl, hinside⟩
    exact literal?_of_inside hinside after

/-! ### What a line starts with -/

@[simp] theorem tokens_nil : tokens [] = .ok [] := by
  rw [tokens]

theorem tokens_gap {c : Char} (h : isGap c = true) (line : Text) :
    tokens (c :: line) = tokens line := by
  rw [tokens, if_pos h]

theorem tokens_comment (rest : Text) : tokens ('/' :: '/' :: rest) = .ok [] := by
  rw [tokens, if_neg (by decide), if_pos ⟨rfl, rfl⟩]

theorem tokens_return : tokens ['\r'] = .ok [] := by
  rw [tokens, if_neg (by decide), if_neg (by decide), if_pos ⟨rfl, rfl⟩]

/-- A quote starts a literal, or is stray. -/
theorem tokens_quote (rest : Text) :
    tokens ('"' :: rest) =
      match literal? rest with
      | none => .error { char := '"', following := rest }
      | some (inside, after) => (tokens after).map (unescape inside :: ·) := by
  have hslash : '"' ≠ '/' := by decide
  have hreturn : '"' ≠ '\r' := by decide
  rw [tokens, if_neg (by decide), if_neg fun h => hslash h.1, if_neg fun h => hreturn h.1,
    if_pos rfl]
  split
  · next hnone => simp only [hnone]
  · next inside after hsome =>
    simp only [hsome]
    cases tokens after <;> rfl

/-- Any other blank than a gap is stray, unless it ends the line. -/
theorem tokens_blank {c : Char} {rest : Text} (hblank : Text.isBlank c = true)
    (hgap : isGap c = false) (hending : ¬ (c = '\r' ∧ rest = [])) :
    tokens (c :: rest) = .error { char := c, following := rest } := by
  have hslash : c ≠ '/' := by
    rintro rfl
    exact absurd hblank (by decide)
  have hquote : c ≠ '"' := by
    rintro rfl
    exact absurd hblank (by decide)
  rw [tokens, if_neg (Bool.not_eq_true _ ▸ hgap), if_neg fun h => hslash h.1, if_neg hending,
    if_neg hquote, if_pos hblank]

/-- A character of a word starts the longest word that there is. -/
theorem tokens_wordChar {c : Char} {rest : Text} (hc : isWordChar c = true)
    (hcomment : ¬ (c = '/' ∧ rest.head? = some '/')) :
    tokens (c :: rest) =
      (tokens (rest.dropWhile isWordChar)).map ((c :: rest.takeWhile isWordChar) :: ·) := by
  obtain ⟨hblank, hquote⟩ := isWordChar_iff.mp hc
  have hgap : ¬ isGap c = true := fun hgap => by
    rw [isBlank_of_isGap hgap] at hblank
    cases hblank
  rw [tokens, if_neg hgap, if_neg hcomment, if_neg fun h => ne_return_of_isWordChar hc h.1,
    if_neg hquote, if_neg (by simp [hblank])]
  cases tokens (rest.dropWhile isWordChar) <;> rfl

theorem tokens_literal {inside : Text} (h : Inside inside) {after : Text} {ts : List Text}
    (hafter : tokens after = .ok ts) :
    tokens ('"' :: (inside ++ '"' :: after)) = .ok (unescape inside :: ts) := by
  simp only [tokens_quote, literal?_of_inside h after, hafter]
  rfl

theorem tokens_word {w line : Text} {ts : List Text} (nonempty : w ≠ [])
    (inWord : ∀ c ∈ w, isWordChar c = true)
    (maximal : ∀ c, line.head? = some c → isWordChar c = false)
    (notComment : ¬ ['/', '/'] <+: w) (hline : tokens line = .ok ts) :
    tokens (w ++ line) = .ok (w :: ts) := by
  obtain ⟨c, rest, rfl⟩ := List.exists_cons_of_ne_nil nonempty
  have hrest : ∀ d ∈ rest, isWordChar d = true := fun d hd => inWord d (List.mem_cons_of_mem _ hd)
  have hcomment : ¬ (c = '/' ∧ (rest ++ line).head? = some '/') := by
    rintro ⟨rfl, hhead⟩
    cases rest with
    | nil =>
      -- the slash after the word would belong to it
      have hslash := maximal '/' hhead
      exact absurd hslash (by decide)
    | cons d others =>
      rw [List.cons_append, List.head?_cons, Option.some.injEq] at hhead
      subst hhead
      exact notComment ⟨others, rfl⟩
  have hnone : line.takeWhile isWordChar = [] ∧ line.dropWhile isWordChar = line := by
    cases line with
    | nil => exact ⟨rfl, rfl⟩
    | cons d others => simp [maximal d rfl]
  have htake : (rest ++ line).takeWhile isWordChar = rest := by
    rw [List.takeWhile_append_of_pos hrest, hnone.1, List.append_nil]
  have hdrop : (rest ++ line).dropWhile isWordChar = line := by
    rw [List.dropWhile_append_of_pos hrest, hnone.2]
  rw [List.cons_append, tokens_wordChar (inWord c List.mem_cons_self) hcomment, htake, hdrop, hline]
  rfl

/-! ### From the grammar to the reader -/

/-- What stands for tokens is read as these tokens, also with a carriage return after it. -/
theorem tokens_append_of_derives {line : Text} {ts : List Text} (h : Derives line ts)
    {ending : Text} (hending : ending = [] ∨ ending = ['\r']) :
    tokens (line ++ ending) = .ok ts := by
  induction h with
  | nil =>
    rcases hending with rfl | rfl
    · exact tokens_nil
    · exact tokens_return
  | gap blank rest ih =>
    rw [List.cons_append, tokens_gap blank]
    exact ih
  | comment rest => exact tokens_comment (rest ++ ending)
  | literal complete rest ih =>
    rw [List.cons_append, List.append_assoc, List.cons_append]
    exact tokens_literal complete ih
  | @word w line ts nonempty inWord maximal notComment rest ih =>
    rw [List.append_assoc]
    refine tokens_word nonempty inWord ?_ notComment ih
    intro c hc
    cases line with
    | nil =>
      rcases hending with rfl | rfl
      · cases hc
      · cases hc
        decide
    | cons d others => exact maximal c hc

theorem tokens_of_derives {line : Text} {ts : List Text} (h : Derives line ts) :
    tokens line = .ok ts := by
  have hread := tokens_append_of_derives h (.inl rfl)
  rwa [List.append_nil] at hread

theorem Derives.unique {line : Text} {ts us : List Text} (h : Derives line ts)
    (h' : Derives line us) : ts = us :=
  Except.ok.inj ((tokens_of_derives h).symm.trans (tokens_of_derives h'))

/-! ### From the reader to the grammar -/

/-- What ends a line is looked for at its end only. -/
theorem body_append {start line : Text} (h : line ≠ [] ∨ start.getLast? ≠ some '\r') :
    body (start ++ line) = start ++ body line := by
  cases line with
  | nil =>
    have hstart : start.getLast? ≠ some '\r' := h.resolve_left (fun hne => hne rfl)
    rw [List.append_nil, body, if_neg hstart]
    exact (List.append_nil start).symm
  | cons d rest =>
    have hlast : (start ++ d :: rest).getLast? = (d :: rest).getLast? := by
      rw [List.getLast?_append, List.getLast?_cons, Option.some_or]
    rw [body, body, hlast, List.dropLast_append_of_ne_nil (List.cons_ne_nil d rest)]
    split <;> rfl

theorem body_cons {c : Char} (h : c ≠ '\r') (line : Text) : body (c :: line) = c :: body line :=
  @body_append [c] line (.inr fun hlast => h (Option.some.inj hlast))

/-- The line is what is left of it without its ending, and the ending. -/
theorem exists_body_append (line : Text) :
    ∃ ending, (ending = [] ∨ ending = ['\r']) ∧ line = body line ++ ending := by
  by_cases h : line.getLast? = some '\r'
  · obtain ⟨start, rfl⟩ := List.getLast?_eq_some_iff.mp h
    exact ⟨['\r'], .inr rfl, by simp [body]⟩
  · exact ⟨[], .inl rfl, by simp [body, h]⟩

theorem head?_body {line : Text} {c : Char} (h : (body line).head? = some c) :
    line.head? = some c := by
  obtain ⟨ending, -, hline⟩ := exists_body_append line
  rw [hline, List.head?_append, h]
  rfl

/-- The longest word at the start of a line is one that the grammar allows. -/
theorem derives_word {c : Char} {rest : Text} {ts : List Text} (hc : isWordChar c = true)
    (hcomment : ¬ (c = '/' ∧ rest.head? = some '/'))
    (h : Derives (body (rest.dropWhile isWordChar)) ts) :
    Derives (body (c :: rest)) ((c :: rest.takeWhile isWordChar) :: ts) := by
  have hword : ∀ d ∈ c :: rest.takeWhile isWordChar, isWordChar d = true := by
    intro d hd
    rcases List.mem_cons.mp hd with rfl | hd
    · exact hc
    · exact isWordChar_of_mem_takeWhile hd
  have hsplit : c :: rest = (c :: rest.takeWhile isWordChar) ++ rest.dropWhile isWordChar := by
    rw [List.cons_append, List.takeWhile_append_dropWhile]
  have hlast : (c :: rest.takeWhile isWordChar).getLast? ≠ some '\r' := fun hlast =>
    ne_return_of_isWordChar (hword _ (List.mem_of_getLast? hlast)) rfl
  rw [hsplit, body_append (.inr hlast)]
  refine .word (List.cons_ne_nil _ _) hword ?_ ?_ h
  · intro d hd
    have hstop := List.head?_dropWhile_not isWordChar rest
    rw [head?_body hd] at hstop
    exact hstop
  · intro hslashes
    obtain ⟨rfl, hslash⟩ := List.cons_prefix_cons.mp hslashes
    obtain ⟨others, hothers⟩ := hslash
    refine hcomment ⟨rfl, ?_⟩
    rw [← List.takeWhile_append_dropWhile (p := isWordChar) (l := rest), ← hothers]
    rfl

theorem derives_of_tokens {line : Text} {ts : List Text} (hfree : '\n' ∉ line)
    (h : tokens line = .ok ts) : Derives (body line) ts := by
  fun_induction tokens line generalizing ts with
  | case1 =>
    cases h
    exact .nil
  | case2 c rest hgap ih =>
    have hreturn : c ≠ '\r' := by
      rintro rfl
      exact absurd hgap (by decide)
    rw [body_cons hreturn]
    exact .gap hgap (ih (fun hmem => hfree (List.mem_cons_of_mem _ hmem)) h)
  | case3 c rest _ hcomment =>
    cases h
    obtain ⟨rfl, hslash⟩ := hcomment
    obtain ⟨others, rfl⟩ := List.head?_eq_some_iff.mp hslash
    rw [body_cons (by decide), body_cons (by decide)]
    exact .comment _
  | case4 c rest _ _ hreturn =>
    cases h
    obtain ⟨rfl, rfl⟩ := hreturn
    exact .nil
  | case5 => cases h
  | case6 => cases h
  | case7 rest inside after hliteral _ us hafter _ _ _ ih =>
    cases h
    have hrest : '\n' ∉ rest := fun hmem => hfree (List.mem_cons_of_mem _ hmem)
    obtain ⟨rfl, hinside⟩ := (literal?_eq_some_iff hrest).mp hliteral
    have hclosed : '\n' ∉ after := fun hmem => hrest (by simp [hmem])
    rw [body_cons (by decide), body_append (.inl (List.cons_ne_nil _ _)), body_cons (by decide)]
    exact .literal hinside (ih hclosed hafter)
  | case8 => cases h
  | case9 => cases h
  | case10 c rest _ hcomment _ hquote hblank _ us hafter ih =>
    cases h
    have hc : isWordChar c = true := isWordChar_iff.mpr ⟨by simpa using hblank, hquote⟩
    have hclosed : '\n' ∉ rest.dropWhile isWordChar := fun hmem =>
      hfree (List.mem_cons_of_mem _ ((List.dropWhile_sublist _).subset hmem))
    exact derives_word hc hcomment (ih hclosed hafter)

/-- **The reader of a line and the grammar agree.** -/
theorem tokens_eq_ok_iff {line : Text} (hfree : '\n' ∉ line) {ts : List Text} :
    tokens line = .ok ts ↔ Derives (body line) ts := by
  constructor
  · exact derives_of_tokens hfree
  · intro h
    obtain ⟨ending, hending, hline⟩ := exists_body_append line
    rw [hline]
    exact tokens_append_of_derives h hending

end Line

/-! ### Whole sources -/

namespace Source

/-- Every line that has tokens, as a statement with the number of the line; the first line
    has the given number. -/
def numbered (number : Nat) : List (List Text) → List Statement
  | [] => []
  | content :: rest =>
    if content = [] then numbered (number + 1) rest
    else { content, index := some number } :: numbered (number + 1) rest

/-- Lines that stand for tokens, line by line. -/
abbrev StandsFor (lines : List Text) (contents : List (List Text)) : Prop :=
  List.Forall₂ (fun line content => Line.Derives (Line.body line) content) lines contents

theorem readLines_eq_ok_iff {number : Nat} {lines : List Text}
    (hfree : ∀ line ∈ lines, '\n' ∉ line) {statements : List Statement} :
    readLines number lines = .ok statements ↔
      ∃ contents, StandsFor lines contents ∧ statements = numbered number contents := by
  induction lines generalizing number statements with
  | nil =>
    constructor
    · intro h
      cases h
      exact ⟨[], .nil, rfl⟩
    · rintro ⟨contents, hcontents, rfl⟩
      cases hcontents
      rfl
  | cons line rest ih =>
    have hline := hfree line List.mem_cons_self
    have hrest : ∀ l ∈ rest, '\n' ∉ l := fun l hl => hfree l (List.mem_cons_of_mem _ hl)
    constructor
    · intro h
      rw [readLines] at h
      cases htokens : Line.tokens line with
      | error stray => simp [htokens] at h
      | ok content =>
        cases hlater : readLines (number + 1) rest with
        | error u => simp [htokens, hlater] at h
        | ok later =>
          obtain ⟨contents, hcontents, rfl⟩ := (ih hrest).mp hlater
          have hcontent := (Line.tokens_eq_ok_iff hline).mp htokens
          refine ⟨content :: contents, .cons hcontent hcontents, ?_⟩
          simp only [htokens, hlater, Except.ok.injEq] at h
          rw [← h, numbered]
          cases content <;> rfl
    · rintro ⟨contents, hcontents, rfl⟩
      obtain ⟨content, others, hcontent, hothers, rfl⟩ := List.forall₂_cons_left_iff.mp hcontents
      rw [readLines, (Line.tokens_eq_ok_iff hline).mpr hcontent,
        (ih hrest).mpr ⟨others, hothers, rfl⟩, numbered]
      cases content <;> rfl

theorem exists_standsFor_iff {lines : List Text} :
    (∃ contents, StandsFor lines contents) ↔
      ∀ line ∈ lines, ∃ content, Line.Derives (Line.body line) content := by
  induction lines with
  | nil =>
    constructor
    · intro _ line hline
      cases hline
    · intro _
      exact ⟨[], .nil⟩
  | cons line rest ih =>
    rw [List.forall_mem_cons, ← ih]
    constructor
    · rintro ⟨contents, hcontents⟩
      obtain ⟨content, others, hcontent, hothers, -⟩ := List.forall₂_cons_left_iff.mp hcontents
      exact ⟨⟨content, hcontent⟩, ⟨others, hothers⟩⟩
    · rintro ⟨⟨content, hcontent⟩, ⟨others, hothers⟩⟩
      exact ⟨content :: others, .cons hcontent hothers⟩

/-- **Reading accepts exactly the grammar.**  A line stands for one list of tokens at most,
    and a source is cut into lines in exactly one way.  A source can be read if and only if
    each of its lines stands for some tokens, and what is read is then one statement for every
    line that has a token, in order, with the tokens and the number of the line. -/
theorem read_accepts_grammar :
    (∀ (line : Text) (ts us : List Text),
      Line.Derives line ts → Line.Derives line us → ts = us) ∧
    (∀ source : Text, ∃! cut, Cut source cut) ∧
    ∀ (source : Text) (cut : List Text), Cut source cut →
      ((∃ statements, read source = .ok statements) ↔
        ∀ line ∈ cut, ∃ ts, Line.Derives (Line.body line) ts) ∧
      ∀ statements, read source = .ok statements ↔
        ∃ contents, List.Forall₂ (fun line ts => Line.Derives (Line.body line) ts) cut contents ∧
          statements = numbered 1 contents := by
  refine ⟨fun line ts us => Line.Derives.unique, ?_, ?_⟩
  · intro source
    obtain ⟨cut, hcut⟩ := exists_cut source
    exact ⟨cut, hcut, fun other hother => hother.unique hcut⟩
  · intro source cut hcut
    have hread : ∀ statements, read source = .ok statements ↔
        ∃ contents, StandsFor cut contents ∧ statements = numbered 1 contents := by
      intro statements
      rw [read_eq_readLines hcut]
      exact readLines_eq_ok_iff hcut.newlineFree
    refine ⟨?_, hread⟩
    rw [← exists_standsFor_iff]
    constructor
    · rintro ⟨statements, hstatements⟩
      obtain ⟨contents, hcontents, -⟩ := (hread statements).mp hstatements
      exact ⟨contents, hcontents⟩
    · rintro ⟨contents, hcontents⟩
      exact ⟨numbered 1 contents, (hread _).mpr ⟨contents, hcontents, rfl⟩⟩

/-- A word, a literal with an escaped quote and a comment with nothing between them, a line
    ending of two characters, and a last line that is blank and not ended. -/
theorem read_accepts_grammar_adjacent :
    let line : Text := ['a', '"', 'b', '\\', '"', '"', '/', '/', 'x']
    let source : Text := line ++ ['\r', '\n', '\t']
    Cut source [line ++ ['\r'], ['\t']] ∧ Line.Derives line [['a'], ['b', '"']] ∧
      read source = .ok [{ content := [['a'], ['b', '"']], index := some 1 }] := by
  intro line source
  have hcut : Cut source [line ++ ['\r'], ['\t']] := ⟨by decide, by decide⟩
  have hinside : Line.Inside ['b', '\\', '"'] :=
    .plain (by decide) (by decide) (by decide) (.pair (by decide) .nil)
  have hline : Line.Derives line [['a'], ['b', '"']] :=
    .word (w := ['a']) (by decide) (List.forall_mem_singleton.mpr (by decide))
      (by intro c hc; cases hc; decide) (by decide) (.literal hinside (.comment ['x']))
  have hblank : Line.Derives ['\t'] [] := .gap (by decide) .nil
  exact ⟨hcut, hline, ((read_accepts_grammar.2.2 source _ hcut).2 _).mpr
    ⟨[[['a'], ['b', '"']], []], .cons hline (.cons hblank .nil), rfl⟩⟩

end Source

end Dyehouse
