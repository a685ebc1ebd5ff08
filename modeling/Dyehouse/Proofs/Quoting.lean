import Dyehouse.Proofs.Grammar
import Dyehouse.Source.Printer

/-!
# Reading undoes writing

Every list of tokens without newlines can be written as a line, each token as a string
literal, and is read back as it was.  Two things carry this.  The inside of a written literal
is the inside of a literal in the sense of the grammar, whatever the token holds, so a quote in
the token never ends the literal.  And taking the escapes out again gives the token back,
although it is done by two replacements one after the other and not by one scan: the first
takes the backslash from every quote and touches no other, because a quote in a written literal
has its own backslash right before it; what is left for the second is the token with every
backslash doubled.
-/

namespace Dyehouse

/-! ### Dropping one character before another -/

theorem Text.dropBefore_cons_of_head?_ne (a c : Char) {b : Char} {t : Text}
    (h : t.head? ≠ some b) : dropBefore a b (c :: t) = c :: dropBefore a b t := by
  cases t with
  | nil => rfl
  | cons d rest =>
    have hd : d ≠ b := fun hd => h (by rw [hd]; rfl)
    rw [dropBefore, if_neg fun hpair => hd hpair.2]

namespace Line

/-! ### Escapes -/

theorem escape_special {c : Char} (h : c = '\\' ∨ c = '"') (t : Text) :
    escape (c :: t) = '\\' :: c :: escape t := by
  rw [escape, List.flatMap_cons, if_pos h]
  rfl

theorem escape_plain {c : Char} (h : ¬ (c = '\\' ∨ c = '"')) (t : Text) :
    escape (c :: t) = c :: escape t := by
  rw [escape, List.flatMap_cons, if_neg h]
  rfl

/-- An escaped text never starts with a quote. -/
theorem head?_escape_ne (t : Text) : (escape t).head? ≠ some '"' := by
  cases t with
  | nil => exact nofun
  | cons c rest =>
    by_cases h : c = '\\' ∨ c = '"'
    · rw [escape_special h, List.head?_cons]
      decide
    · rw [escape_plain h, List.head?_cons]
      exact fun hquote => h (.inr (Option.some.inj hquote))

theorem newline_not_mem_escape {t : Text} (h : '\n' ∉ t) : '\n' ∉ escape t := by
  intro hmem
  obtain ⟨c, hc, hmem⟩ := List.mem_flatMap.mp hmem
  split at hmem
  · rcases List.mem_cons.mp hmem with hbackslash | hmem
    · exact absurd hbackslash (by decide)
    · rw [List.mem_singleton.mp hmem] at h
      exact h hc
  · rw [List.mem_singleton.mp hmem] at h
    exact h hc

theorem inside_escape {t : Text} (h : '\n' ∉ t) : Inside (escape t) := by
  induction t with
  | nil => exact .nil
  | cons c rest ih =>
    rw [List.mem_cons, not_or] at h
    by_cases hc : c = '\\' ∨ c = '"'
    · rw [escape_special hc]
      exact .pair (Ne.symm h.1) (ih h.2)
    · rw [escape_plain hc]
      rw [not_or] at hc
      exact .plain hc.2 hc.1 (Ne.symm h.1) (ih h.2)

/-- The text with every backslash doubled. -/
def doubled (t : Text) : Text :=
  t.flatMap fun c => if c = '\\' then ['\\', '\\'] else [c]

theorem doubled_backslash (t : Text) : doubled ('\\' :: t) = '\\' :: '\\' :: doubled t := rfl

theorem doubled_plain {c : Char} (h : c ≠ '\\') (t : Text) : doubled (c :: t) = c :: doubled t := by
  rw [doubled, List.flatMap_cons, if_neg h]
  rfl

/-- The first replacement takes the backslashes from the quotes and leaves the others. -/
theorem dropBefore_quote_escape (t : Text) :
    Text.dropBefore '\\' '"' (escape t) = doubled t := by
  induction t with
  | nil => rfl
  | cons c rest ih =>
    by_cases hbackslash : c = '\\'
    · subst hbackslash
      -- neither of the two backslashes stands before a quote
      rw [escape_special (.inl rfl), Text.dropBefore_cons_of_head?_ne _ _ (by simp),
        Text.dropBefore_cons_of_head?_ne _ _ (head?_escape_ne rest), ih, doubled_backslash]
    · by_cases hquote : c = '"'
      · subst hquote
        rw [escape_special (.inr rfl), Text.dropBefore_pair, ih, doubled_plain (by decide)]
      · rw [escape_plain (by simp [hbackslash, hquote]),
          Text.dropBefore_cons_of_ne _ hbackslash, ih, doubled_plain hbackslash]

theorem dropBefore_backslash_doubled (t : Text) :
    Text.dropBefore '\\' '\\' (doubled t) = t := by
  induction t with
  | nil => rfl
  | cons c rest ih =>
    by_cases hbackslash : c = '\\'
    · subst hbackslash
      rw [doubled_backslash, Text.dropBefore_pair, ih]
    · rw [doubled_plain hbackslash, Text.dropBefore_cons_of_ne _ hbackslash, ih]

theorem unescape_escape (t : Text) : unescape (escape t) = t := by
  rw [unescape, dropBefore_quote_escape, dropBefore_backslash_doubled]

/-! ### Lines -/

theorem write_singleton (token : Text) : write [token] = writeToken token := by
  simp [write, List.intercalate]

theorem write_cons_cons (token next : Text) (rest : List Text) :
    write (token :: next :: rest) = writeToken token ++ ' ' :: write (next :: rest) := by
  simp [write, List.intercalate]

theorem derives_writeToken {token line : Text} {ts : List Text} (h : '\n' ∉ token)
    (hline : Derives line ts) : Derives (writeToken token ++ line) (token :: ts) := by
  have hliteral := Derives.literal (inside_escape h) hline
  rw [unescape_escape] at hliteral
  simpa [writeToken] using hliteral

/-- A written line stands for the tokens that it was written from. -/
theorem derives_write {content : List Text} (h : ∀ token ∈ content, '\n' ∉ token) :
    Derives (write content) content := by
  induction content with
  | nil => exact .nil
  | cons token rest ih =>
    have htoken := h token List.mem_cons_self
    have hrest := ih fun t ht => h t (List.mem_cons_of_mem _ ht)
    cases rest with
    | nil =>
      have hlast := derives_writeToken htoken .nil
      rwa [List.append_nil, ← write_singleton] at hlast
    | cons next others =>
      rw [write_cons_cons]
      exact derives_writeToken htoken (.gap (by decide) hrest)

theorem newline_not_mem_write {content : List Text} (h : ∀ token ∈ content, '\n' ∉ token) :
    '\n' ∉ write content := by
  have htoken : ∀ token ∈ content, '\n' ∉ writeToken token := by
    intro token hmem
    simp [writeToken, newline_not_mem_escape (h token hmem)]
  induction content with
  | nil => exact nofun
  | cons token rest ih =>
    rw [List.forall_mem_cons] at h htoken
    cases rest with
    | nil =>
      rw [write_singleton]
      exact htoken.1
    | cons next others =>
      rw [write_cons_cons]
      simp [htoken.1, ih h.2 htoken.2]

end Line

/-! ### Sources -/

namespace Source

theorem standsFor_write {contents : List (List Text)}
    (h : ∀ content ∈ contents, ∀ token ∈ content, '\n' ∉ token) :
    StandsFor (contents.map Line.write) contents := by
  induction contents with
  | nil => exact .nil
  | cons content rest ih =>
    rw [List.forall_mem_cons] at h
    have hread := Line.tokens_of_derives (Line.derives_write h.1)
    exact .cons ((Line.tokens_eq_ok_iff (Line.newline_not_mem_write h.1)).mp hread) (ih h.2)

/-- If no line is without tokens, none is left out. -/
theorem numbered_of_ne_nil {contents : List (List Text)} (h : ∀ content ∈ contents, content ≠ [])
    (number : Nat) :
    numbered number contents =
      (contents.zipIdx number).map fun entry => { content := entry.1, index := some entry.2 } := by
  induction contents generalizing number with
  | nil => rfl
  | cons content rest ih =>
    rw [List.forall_mem_cons] at h
    rw [numbered, if_neg h.1, ih h.2, List.zipIdx_cons, List.map_cons]

/-- **Reading undoes writing.**  Statements that each have a token, and whose tokens hold no
    newline but may hold anything else, are read back from what is written, each with its own
    tokens and with its number, counted from one. -/
theorem read_write_quoted (contents : List (List Text))
    (h : ∀ content ∈ contents, content ≠ [] ∧ ∀ token ∈ content, '\n' ∉ token) :
    read (write contents) =
      .ok ((contents.zipIdx 1).map fun entry => { content := entry.1, index := some entry.2 }) := by
  have hfree : ∀ line ∈ contents.map Line.write, '\n' ∉ line := by
    intro line hline
    obtain ⟨content, hcontent, rfl⟩ := List.mem_map.mp hline
    exact Line.newline_not_mem_write (h content hcontent).2
  have hlines : lines (write contents) = contents.map Line.write ++ [[]] := by
    rw [← Text.splitOn_flatMap hfree, List.flatMap_map]
    rfl
  rw [read, hlines, readLines_append_nil]
  refine (readLines_eq_ok_iff hfree).mpr ⟨contents, standsFor_write fun c hc => (h c hc).2, ?_⟩
  exact (numbered_of_ne_nil (fun c hc => (h c hc).1) 1).symm

/-- An empty token, a backslash before a quote and at the end, two slashes, a carriage return. -/
theorem read_write_quoted_escapes :
    let contents : List (List Text) :=
      [[[], ['\\', '"', '\\', '\\']], [['/', '/'], ['"', '\r']]]
    (∀ content ∈ contents, content ≠ [] ∧ ∀ token ∈ content, '\n' ∉ token) ∧
      read (write contents) =
        .ok [{ content := [[], ['\\', '"', '\\', '\\']], index := some 1 },
          { content := [['/', '/'], ['"', '\r']], index := some 2 }] := by
  intro contents
  have h : ∀ content ∈ contents, content ≠ [] ∧ ∀ token ∈ content, '\n' ∉ token := by decide
  exact ⟨h, read_write_quoted contents h⟩

end Source

end Dyehouse
