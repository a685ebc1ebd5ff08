import Dyehouse.Proofs.Grammar

/-!
# Nothing crosses a newline

A source is one text to its grammar, and where a lexeme ends depends on what follows it.  But no
pattern matches beyond a newline: a comment, a word, a literal and a gap hold none, escapes
included, and a line ending has its newline last (`Source.Terminal.newline_last`).  So what stands
behind a newline has no say in what is taken before it, and the lexemes of two texts with a newline
between them are those of the first, ended by the newline, and then those of the second
(`Source.lex_append_newline`).

Two things follow.  Taking a source apart as one text is reading it line by line
(`Source.parse_eq_read`), and two texts with a newline between them are read independently
(`Source.read_line_local`).
-/

namespace Dyehouse

/-! ### The longest start -/

namespace Text

variable {p : Text → Bool}

theorem longest?_eq_none {t : Text} (h : ∀ taken after, t = taken ++ after → ¬ p taken = true) :
    longest? p t = none := by
  induction t generalizing p with
  | nil => rw [longest?, if_neg (h [] [] rfl)]
  | cons c rest ih =>
    have hlater : longest? (fun t => p (c :: t)) rest = none := by
      apply ih
      intro taken after hrest
      exact h (c :: taken) after (congrArg (c :: ·) hrest)
    rw [longest?, hlater]
    exact if_neg (h [] (c :: rest) rfl)

theorem longest?_append {taken after : Text} (haccepts : p taken = true)
    (hlongest : ∀ more rest, after = more ++ rest → p (taken ++ more) = true → more = []) :
    longest? p (taken ++ after) = some (taken, after) := by
  induction taken generalizing p with
  | nil =>
    cases after with
    | nil => rw [List.nil_append, longest?, if_pos haccepts]
    | cons c rest =>
      have hlater : longest? (fun t => p (c :: t)) rest = none := by
        apply longest?_eq_none
        intro more others hrest hmore
        have hnil := hlongest (c :: more) others (congrArg (c :: ·) hrest) hmore
        exact List.cons_ne_nil _ _ hnil
      rw [List.nil_append, longest?, hlater]
      exact if_pos haccepts
  | cons c taken ih => rw [List.cons_append, longest?, ih haccepts hlongest]

/-- If a newline can only be the last character of what is accepted, what follows a newline is
    not looked at. -/
theorem longest?_append_newline (h : ∀ a b, p (a ++ '\n' :: b) = true → b = []) (a b : Text) :
    longest? p (a ++ '\n' :: b) =
      (longest? p (a ++ ['\n'])).map fun cut => (cut.1, cut.2 ++ b) := by
  induction a generalizing p with
  | nil =>
    rw [List.nil_append, List.nil_append]
    by_cases hnewline : p ['\n'] = true
    · have htake : ∀ after, longest? p (['\n'] ++ after) = some (['\n'], after) := by
        intro after
        apply longest?_append hnewline
        intro more rest _ hmore
        exact h [] more hmore
      have halone := htake []
      rw [List.append_nil] at halone
      rw [halone]
      exact htake b
    · have hlater : ∀ after, longest? (fun t => p ('\n' :: t)) after = none := by
        intro after
        apply longest?_eq_none
        intro taken rest _ htaken
        rw [h [] taken htaken] at htaken
        exact hnewline htaken
      rw [longest?, longest?, hlater, hlater]
      cases p [] <;> rfl
  | cons c a ih =>
    rw [List.cons_append, List.cons_append, longest?, longest?,
      ih fun u v hv => h (c :: u) v hv]
    cases longest? (fun t => p (c :: t)) (a ++ ['\n']) with
    | none => cases p [] <;> simp
    | some cut => rfl

/-- A text that ends in a newline, cut in two: the newline is all that ends the first part, or it
    ends the second. -/
theorem append_newline_eq_append {a taken after : Text} (h : a ++ ['\n'] = taken ++ after) :
    (after = [] ∧ taken = a ++ ['\n']) ∨
      ∃ later, after = later ++ ['\n'] ∧ a = taken ++ later := by
  rcases List.eq_nil_or_concat after with rfl | ⟨later, c, rfl⟩
  · rw [List.append_nil] at h
    exact Or.inl ⟨rfl, h.symm⟩
  · rw [List.concat_eq_append] at h ⊢
    rw [← List.append_assoc] at h
    obtain ⟨ha, hc⟩ := List.append_inj' h rfl
    exact Or.inr ⟨later, by rw [hc], ha⟩

theorem newline_not_mem_of_all {p : Char → Bool} (hp : ¬ p '\n' = true) {t : Text}
    (h : t.all p = true) : '\n' ∉ t :=
  fun hmem => hp (List.all_eq_true.mp h '\n' hmem)

end Text

namespace Line

theorem Inside.newline_not_mem {inside : Text} (h : Inside inside) : '\n' ∉ inside := by
  induction h with
  | nil => exact List.not_mem_nil
  | plain quote backslash newline tail ih =>
    rw [List.mem_cons, not_or]
    exact ⟨newline.symm, ih⟩
  | pair newline tail ih =>
    rw [List.mem_cons, List.mem_cons, not_or, not_or]
    exact ⟨by decide, newline.symm, ih⟩

end Line

namespace Source

namespace Terminal

/-! ### What the patterns match -/

theorem closes_pair (d : Char) (rest : Text) :
    closes ('\\' :: d :: rest) = (d != '\n' && closes rest) := by
  simp [closes]

theorem closes_plain {c : Char} (quote : c ≠ '"') (backslash : c ≠ '\\') (rest : Text) :
    closes (c :: rest) = (c != '\n' && closes rest) := by
  cases rest <;> simp [closes, quote, backslash]

theorem closes_of_inside {inside : Text} (h : Line.Inside inside) (more : Text) :
    closes (inside ++ '"' :: more) = more.isEmpty := by
  induction h with
  | nil => cases more <;> simp [closes]
  | plain quote backslash newline tail ih =>
    rw [List.cons_append, closes_plain quote backslash, ih, bne_iff_ne.mpr newline, Bool.true_and]
  | pair newline tail ih =>
    rw [List.cons_append, List.cons_append, closes_pair, ih, bne_iff_ne.mpr newline, Bool.true_and]

theorem inside_of_closes {t : Text} (h : closes t = true) :
    ∃ inside, Line.Inside inside ∧ t = inside ++ ['"'] := by
  fun_induction closes t with
  | case1 => cases h
  | case2 rest =>
    rw [List.isEmpty_iff] at h
    subst h
    exact ⟨[], .nil, rfl⟩
  | case3 => cases h
  | case4 d rest _ ih =>
    rw [Bool.and_eq_true, bne_iff_ne] at h
    obtain ⟨inside, hinside, rfl⟩ := ih h.2
    exact ⟨'\\' :: d :: inside, .pair h.1 hinside, rfl⟩
  | case5 c rest hquote hbackslash ih =>
    rw [Bool.and_eq_true, bne_iff_ne] at h
    obtain ⟨inside, hinside, rfl⟩ := ih h.2
    exact ⟨c :: inside, .plain hquote hbackslash h.1 hinside, rfl⟩

theorem accepts_literal_iff {t : Text} :
    literal.accepts t = true ↔ ∃ inside, Line.Inside inside ∧ t = '"' :: (inside ++ ['"']) := by
  rw [accepts, Bool.and_eq_true, beq_iff_eq]
  constructor
  · rintro ⟨hquote, hcloses⟩
    obtain ⟨rest, rfl⟩ := List.head?_eq_some_iff.mp hquote
    obtain ⟨inside, hinside, hrest⟩ := inside_of_closes hcloses
    exact ⟨inside, hinside, congrArg ('"' :: ·) hrest⟩
  · rintro ⟨inside, hinside, rfl⟩
    exact ⟨rfl, closes_of_inside hinside []⟩

/-- Nothing but a line ending holds a newline. -/
theorem newline_not_mem {kind : Terminal} (hkind : kind ≠ ending) {t : Text}
    (h : kind.accepts t = true) : '\n' ∉ t := by
  cases kind with
  | comment => exact Text.newline_not_mem_of_all (by decide) (Bool.and_eq_true_iff.mp h).2
  | literal =>
    obtain ⟨inside, hinside, rfl⟩ := accepts_literal_iff.mp h
    simp [hinside.newline_not_mem]
  | word => exact Text.newline_not_mem_of_all (by decide) (Bool.and_eq_true_iff.mp h).2
  | ending => exact absurd rfl hkind
  | gap => exact Text.newline_not_mem_of_all (by decide) (Bool.and_eq_true_iff.mp h).2

/-- **No pattern matches beyond a newline.** -/
theorem newline_last {kind : Terminal} {a b : Text} (h : kind.accepts (a ++ '\n' :: b) = true) :
    b = [] := by
  by_cases hkind : kind = ending
  · subst hkind
    rw [accepts, Bool.or_eq_true, beq_iff_eq, beq_iff_eq] at h
    rcases h with h | h
    · rcases a with _ | ⟨c, _ | ⟨d, rest⟩⟩ <;> simp_all
    · rcases a with _ | ⟨c, _ | ⟨d, rest⟩⟩ <;> simp_all
  · exact absurd List.mem_append_cons_self (newline_not_mem hkind h)

theorem next?_append_newline (a b : Text) :
    next? (a ++ '\n' :: b) =
      (next? (a ++ ['\n'])).map fun cut => (cut.1, cut.2.1, cut.2.2 ++ b) := by
  rw [next?, next?, List.map_findSome?]
  congr 1
  funext kind
  rw [Text.longest?_append_newline fun u v => newline_last]
  simp only [Function.comp_apply, Option.map_map]
  rfl

end Terminal

/-! ### Lexemes before and after a newline -/

@[simp] theorem lex_nil (place : Place) : lex place [] = .ok [] := by
  rw [lex]

theorem lex_stray {t : Text} {c : Char} (hhead : t.head? = some c)
    (h : Terminal.next? t = none) (place : Place) :
    lex place t = .error { char := c, line := place.line, column := place.column } := by
  obtain ⟨rest, rfl⟩ := List.head?_eq_some_iff.mp hhead
  rw [lex]
  split
  · rfl
  · next hsome =>
    rw [h] at hsome
    cases hsome

theorem lex_next {t taken after : Text} {kind : Terminal}
    (h : Terminal.next? t = some (kind, taken, after)) (place : Place) :
    lex place t =
      (lex (place.after taken) after).map ({ kind, text := taken, place } :: ·) := by
  cases t with
  | nil => exact absurd (Terminal.length_next? h) (Nat.not_lt_zero _)
  | cons c rest =>
    rw [lex]
    split
    · next hnone =>
      rw [h] at hnone
      cases hnone
    · next hsome =>
      rw [h] at hsome
      cases hsome
      rfl

/-- A text up to its newline starts alike whatever follows. -/
theorem exists_head?_newline (a : Text) : ∃ c, ∀ b, (a ++ '\n' :: b).head? = some c := by
  cases a with
  | nil => exact ⟨'\n', fun _ => rfl⟩
  | cons c rest => exact ⟨c, fun _ => rfl⟩

theorem Place.after_append (place : Place) (a b : Text) :
    place.after (a ++ b) = (place.after a).after b :=
  List.foldl_append

/-- What is left of a text that ends in a newline: nothing, or a shorter such text. -/
theorem rest_of_next? {a taken after : Text} {kind : Terminal}
    (h : Terminal.next? (a ++ ['\n']) = some (kind, taken, after)) :
    (after = [] ∧ taken = a ++ ['\n']) ∨
      ∃ later, after = later ++ ['\n'] ∧ a = taken ++ later ∧ later.length < a.length := by
  have hlength := Terminal.length_next? h
  obtain ⟨hsplit, -⟩ := Text.eq_append_of_longest? (Terminal.longest?_of_next? h)
  rcases Text.append_newline_eq_append hsplit with hall | ⟨later, rfl, rfl⟩
  · exact Or.inl hall
  · refine Or.inr ⟨later, rfl, rfl, ?_⟩
    simpa using hlength

/-- **Lexemes do not depend on what comes after a newline**, nor on what came before it but for
    their places. -/
theorem lex_append_newline (place : Place) (a b : Text) :
    lex place (a ++ '\n' :: b) =
      (lex place (a ++ ['\n'])).bind fun first =>
        (lex (place.after (a ++ ['\n'])) b).map (first ++ ·) := by
  cases hnext : Terminal.next? (a ++ ['\n']) with
  | none =>
    have hwhole := Terminal.next?_append_newline a b
    rw [hnext, Option.map_none] at hwhole
    obtain ⟨c, hhead⟩ := exists_head?_newline a
    rw [lex_stray (hhead b) hwhole, lex_stray (hhead []) hnext]
    rfl
  | some cut =>
    obtain ⟨kind, taken, after⟩ := cut
    have hwhole := Terminal.next?_append_newline a b
    rw [hnext, Option.map_some] at hwhole
    rw [lex_next hwhole, lex_next hnext]
    rcases rest_of_next? hnext with ⟨rfl, rfl⟩ | ⟨later, rfl, rfl, hshorter⟩
    · rw [List.nil_append, lex_nil]
      rfl
    · rw [List.append_assoc, List.singleton_append, lex_append_newline (place.after taken) later b,
        List.append_assoc, Place.after_append place taken]
      cases lex (place.after taken) (later ++ ['\n']) with
      | error u => rfl
      | ok first => cases lex ((place.after taken).after (later ++ ['\n'])) b <;> rfl
  termination_by a.length

/-- The lexemes of a text that ends in a newline end in a line ending. -/
theorem exists_ending_of_lex {place : Place} {a : Text} {lexemes : List Lexeme}
    (h : lex place (a ++ ['\n']) = .ok lexemes) :
    ∃ first last, lexemes = first ++ [last] ∧ last.kind = .ending := by
  cases hnext : Terminal.next? (a ++ ['\n']) with
  | none =>
    obtain ⟨c, hhead⟩ := exists_head?_newline a
    rw [lex_stray (hhead []) hnext] at h
    cases h
  | some cut =>
    obtain ⟨kind, taken, after⟩ := cut
    rw [lex_next hnext] at h
    rcases rest_of_next? hnext with ⟨rfl, rfl⟩ | ⟨later, rfl, rfl, hshorter⟩
    · rw [lex_nil] at h
      cases h
      refine ⟨[], _, rfl, ?_⟩
      by_contra hkind
      have haccepts := (Text.eq_append_of_longest? (Terminal.longest?_of_next? hnext)).2
      exact Terminal.newline_not_mem hkind haccepts (by simp)
    · cases hlater : lex (place.after taken) (later ++ ['\n']) with
      | error u =>
        rw [hlater] at h
        cases h
      | ok others =>
        rw [hlater] at h
        cases h
        obtain ⟨first, last, rfl, hlast⟩ := exists_ending_of_lex hlater
        exact ⟨_ :: first, last, rfl, hlast⟩
  termination_by a.length

/-! ### Statements before and after a newline -/

theorem group_append {last : Lexeme} (hlast : last.kind = .ending)
    (pending first later : List Lexeme) :
    group pending (first ++ last :: later) =
      (group pending (first ++ [last])).bind fun statements =>
        (group [] later).map (statements ++ ·) := by
  induction first generalizing pending with
  | nil =>
    simp only [List.nil_append, group, hlast]
    cases group [] later <;> simp [Except.map, Except.bind]
  | cons lexeme rest ih =>
    simp only [List.cons_append, group]
    cases lexeme.kind with
    | comment => exact ih pending
    | literal => exact ih (pending ++ [lexeme])
    | word => exact ih (pending ++ [lexeme])
    | ending =>
      simp only [ih []]
      cases group [] (rest ++ [last]) with
      | error r => rfl
      | ok statements => cases group [] later <;> simp [Except.map, Except.bind]
    | gap => exact ih pending

/-- Once the line is ended, no statement is left unfinished. -/
theorem exists_group_eq_ok {last : Lexeme} (hlast : last.kind = .ending)
    (pending first : List Lexeme) :
    ∃ statements, group pending (first ++ [last]) = .ok statements := by
  induction first generalizing pending with
  | nil =>
    simp only [List.nil_append, group, hlast]
    exact ⟨_, rfl⟩
  | cons lexeme rest ih =>
    simp only [List.cons_append, group]
    cases lexeme.kind with
    | comment => exact ih pending
    | literal => exact ih (pending ++ [lexeme])
    | word => exact ih (pending ++ [lexeme])
    | ending =>
      obtain ⟨statements, hstatements⟩ := ih []
      simp only [hstatements]
      exact ⟨_, rfl⟩
    | gap => exact ih pending

theorem parseFrom_append_newline (pending : List Lexeme) (place : Place) (a b : Text) :
    parseFrom pending place (a ++ '\n' :: b) =
      (parseFrom pending place (a ++ ['\n'])).bind fun statements =>
        (parseFrom [] (place.after (a ++ ['\n'])) b).map (statements ++ ·) := by
  unfold parseFrom
  rw [lex_append_newline]
  cases hfirst : lex place (a ++ ['\n']) with
  | error u => rfl
  | ok lexemes =>
    obtain ⟨first, last, rfl, hlast⟩ := exists_ending_of_lex hfirst
    cases lex (place.after (a ++ ['\n'])) b with
    | error u =>
      -- the first text is taken to its end before the second one fails
      obtain ⟨statements, hstatements⟩ := exists_group_eq_ok hlast pending first
      simp only [hstatements]
      rfl
    | ok later =>
      have happend := group_append hlast pending first later
      rw [List.append_cons] at happend
      exact happend

/-! ### The same text further down -/

/-- The place that many lines further down. -/
def Place.down (place : Place) (lines : Nat) : Place :=
  { place with line := place.line + lines }

def Lexeme.down (lexeme : Lexeme) (lines : Nat) : Lexeme :=
  { lexeme with place := lexeme.place.down lines }

end Source

/-- The statement, as it would be read that many lines further down. -/
def Statement.down (s : Statement) (lines : Nat) : Statement :=
  { s with index := s.index.map (· + (lines : Int)) }

/-- The stray character, as it would be met that many lines further down. -/
def Unreadable.down (u : Unreadable) (lines : Nat) : Unreadable :=
  { u with line := u.line + lines }

namespace Source

def Rejection.down (lines : Nat) : Rejection → Rejection
  | stray u => stray (u.down lines)
  | unfinished => unfinished

theorem Place.after_down (place : Place) (lines : Nat) (t : Text) :
    (place.down lines).after t = (place.after t).down lines := by
  induction t generalizing place with
  | nil => rfl
  | cons c rest ih =>
    have hstep : (place.down lines).step c = (place.step c).down lines := by
      unfold step down
      split
      · rw [Nat.add_right_comm]
      · rfl
    change ((place.down lines).step c).after rest = _
    rw [hstep]
    exact ih (place.step c)

/-- Where a text starts shows in the places of its lexemes and nowhere else. -/
theorem lex_down (place : Place) (lines : Nat) (t : Text) :
    lex (place.down lines) t =
      ((lex place t).mapError (·.down lines)).map (List.map (·.down lines)) := by
  cases hnext : Terminal.next? t with
  | none =>
    cases t with
    | nil =>
      rw [lex_nil, lex_nil]
      rfl
    | cons c rest =>
      rw [lex_stray rfl hnext, lex_stray rfl hnext]
      rfl
  | some cut =>
    obtain ⟨kind, taken, after⟩ := cut
    have hshorter := Terminal.length_next? hnext
    rw [lex_next hnext, lex_next hnext, Place.after_down, lex_down (place.after taken) lines after]
    cases lex (place.after taken) after <;> rfl
  termination_by t.length

theorem statement?_down (pending : List Lexeme) (lines : Nat) :
    statement? (pending.map (·.down lines)) = (statement? pending).map (·.down lines) := by
  cases pending with
  | nil => rfl
  | cons first rest =>
    have hvalues : ((first :: rest).map (·.down lines)).map Lexeme.value =
        (first :: rest).map Lexeme.value := by
      rw [List.map_map]
      rfl
    simp only [statement?, List.map_cons] at hvalues ⊢
    rw [hvalues]
    rfl

theorem group_down (pending lexemes : List Lexeme) (lines : Nat) :
    group (pending.map (·.down lines)) (lexemes.map (·.down lines)) =
      ((group pending lexemes).mapError (Rejection.down lines)).map
        (List.map (·.down lines)) := by
  induction lexemes generalizing pending with
  | nil =>
    cases pending with
    | nil => rfl
    | cons first rest => rfl
  | cons lexeme rest ih =>
    have hkind : (lexeme.down lines).kind = lexeme.kind := rfl
    have htoken := ih (pending ++ [lexeme])
    rw [List.map_append, List.map_singleton] at htoken
    simp only [List.map_cons, group, hkind]
    cases lexeme.kind with
    | comment => exact ih pending
    | literal => exact htoken
    | word => exact htoken
    | ending =>
      have hrest := ih []
      rw [List.map_nil] at hrest
      simp only [hrest, statement?_down]
      cases group [] rest with
      | error r => rfl
      | ok statements => cases statement? pending <;> rfl
    | gap => exact ih pending

theorem parseFrom_down (place : Place) (lines : Nat) (t : Text) :
    parseFrom [] (place.down lines) t =
      ((parseFrom [] place t).mapError (Rejection.down lines)).map (List.map (·.down lines)) := by
  unfold parseFrom
  rw [lex_down]
  cases lex place t with
  | error u => rfl
  | ok lexemes => exact group_down [] lexemes lines

end Source

end Dyehouse
