import Dyehouse.Proofs.Provenance

/-!
# Only identifiers are bound

The check of a variable name lets one newline at its end through (`Name.isValid_iff`), so it does
not by itself keep names to letters and digits.  What does is that no token of a source has a
newline in it, and that nothing which happens to tokens afterwards brings one in.  The two
together make every variable that a source gives a value an ASCII letter followed by ASCII
letters and digits.
-/

namespace Dyehouse

namespace Name

/-- An ASCII letter followed by ASCII letters and digits. -/
def IsIdentifier : Text → Prop
  | [] => False
  | first :: rest => first.isAlpha = true ∧ ∀ c ∈ rest, c.isAlphanum = true

instance : DecidablePred IsIdentifier
  | [] => isFalse id
  | first :: rest =>
    -- over the text, not over all characters
    decidable_of_iff ((first.isAlpha && rest.all Char.isAlphanum) = true) (by simp [IsIdentifier])

theorem isTail_iff {t : Text} :
    isTail t = true ↔
      ∃ word : Text, (∀ c ∈ word, c.isAlphanum = true) ∧ (t = word ∨ t = word ++ ['\n']) := by
  fun_induction isTail t with
  | case1 => exact iff_of_true rfl ⟨[], List.forall_mem_nil _, Or.inl rfl⟩
  | case2 => exact iff_of_true rfl ⟨[], List.forall_mem_nil _, Or.inr rfl⟩
  | case3 c rest hnewline ih =>
    rw [Bool.and_eq_true, ih]
    constructor
    · rintro ⟨hc, word, hword, hrest⟩
      refine ⟨c :: word, List.forall_mem_cons.mpr ⟨hc, hword⟩, ?_⟩
      rcases hrest with rfl | rfl
      · exact Or.inl rfl
      · exact Or.inr rfl
    · rintro ⟨word, hword, hrest⟩
      cases word with
      | nil =>
        -- Only the newline alone is written after no word at all, and that case is behind us.
        rcases hrest with hnil | hsingle
        · cases hnil
        · cases hsingle
          exact absurd rfl (hnewline rfl)
      | cons d word =>
        obtain ⟨hd, hlater⟩ := List.forall_mem_cons.mp hword
        rcases hrest with heq | heq
        · cases heq
          exact ⟨hd, rest, hlater, Or.inl rfl⟩
        · cases heq
          exact ⟨hd, word, hlater, Or.inr rfl⟩

/-- What the check of a name lets through. -/
theorem isValid_iff {t : Text} :
    isValid t = true ↔ ∃ name, IsIdentifier name ∧ (t = name ∨ t = name ++ ['\n']) := by
  cases t with
  | nil =>
    refine iff_of_false Bool.false_ne_true ?_
    rintro ⟨name, hname, heq | heq⟩
    · rw [← heq] at hname
      exact hname
    · cases name <;> cases heq
  | cons first rest =>
    rw [isValid, Bool.and_eq_true, isTail_iff]
    constructor
    · rintro ⟨hfirst, word, hword, hrest⟩
      refine ⟨first :: word, ⟨hfirst, hword⟩, ?_⟩
      rcases hrest with rfl | rfl
      · exact Or.inl rfl
      · exact Or.inr rfl
    · rintro ⟨name, hname, heq⟩
      cases name with
      | nil => cases hname
      | cons c word =>
        rcases heq with heq | heq
        · cases heq
          exact ⟨hname.1, rest, hname.2, Or.inl rfl⟩
        · cases heq
          exact ⟨hname.1, word, hname.2, Or.inr rfl⟩

theorem isIdentifier_of_isValid {t : Text} (h : isValid t = true) (hfree : '\n' ∉ t) :
    IsIdentifier t := by
  obtain ⟨name, hname, rfl | rfl⟩ := isValid_iff.mp h
  · exact hname
  · exact absurd (List.mem_append_right _ List.mem_cons_self) hfree

end Name

/-! ### Names that have been checked -/

/-- Every variable with an explicit value has a name that passed the check. -/
def Collection.Checked (collection : Collection) : Prop :=
  collection.values.Keyed fun name => Name.isValid name = true

def Registry.Checked (r : Registry) : Prop :=
  ∀ entry ∈ r.collections.entries, entry.2.Checked

/-- A step that gives an explicit value to a checked name only. -/
def Registry.Step.Checked : Registry.Step → Prop
  | .write _ (.value key _) => Name.isValid key = true
  | _ => True

namespace Registry.Checked

variable {r : Registry}

theorem start : Registry.Checked {} :=
  Table.forall_mem_alter (P := Collection.Checked) (by simp) Table.keyed_empty
    fun _ _ => Table.keyed_empty

theorem update (h : r.Checked) (name : Text) {f : Collection → Collection}
    (hf : ∀ collection, collection.Checked → (f collection).Checked) :
    (r.update name f).Checked :=
  Table.forall_mem_alter (P := Collection.Checked) h (hf _ Table.keyed_empty) hf

theorem ensure (h : r.Checked) (name : Text) : (r.ensure name).Checked :=
  h.update name fun _ hcollection => hcollection

theorem loadAll (h : r.Checked) (names : List Text) : (r.loadAll names).Checked := by
  induction names generalizing r with
  | nil => exact h
  | cons name rest ih => exact ih (h.ensure name)

theorem take (h : r.Checked) {step : Step} (hstep : step.Checked) : (r.take step).Checked := by
  cases step with
  | collection name => exact h.ensure name
  | activate name => exact h.ensure name
  | load names => exact h.loadAll names
  | write holder w =>
    refine h.update _ ?_
    intro collection hcollection
    cases w with
    | value key text => exact hcollection.alter hstep _
    | fallback key text => exact hcollection
    | tag text => exact hcollection

theorem foldl_take (h : r.Checked) {steps : List Step} (hsteps : ∀ step ∈ steps, step.Checked) :
    (steps.foldl Registry.take r).Checked := by
  induction steps generalizing r with
  | nil => exact h
  | cons step rest ih =>
    rw [List.forall_mem_cons] at hsteps
    exact ih (h.take hsteps.1) hsteps.2

end Registry.Checked

theorem Registry.Step.Asked.checked {words : List Text} {step : Registry.Step}
    (h : step.Asked words) : step.Checked := by
  cases h with
  | value hvalid _ _ => exact hvalid
  | fallback _ _ => exact trivial
  | activate _ => exact trivial
  | load _ => exact trivial
  | tag _ => exact trivial
  | untag => exact trivial

theorem State.checked_interpret {file : Option Text} {s : State} {statement : Statement}
    (h : s.context.registry.Checked) :
    (s.interpret file statement).state.context.registry.Checked := by
  rw [State.registry_interpret]
  refine h.foldl_take ?_
  intro step hstep
  obtain ⟨query, words, -, hasked⟩ := Context.asked_of_mem_steps hstep
  exact hasked.checked

theorem Run.checked_statements (file : Option Text) (modes : Modes) (statements : List Statement) :
    (Run.statements file { context := { modes } } statements).state.context.registry.Checked :=
  Run.state_statements_induction (P := fun s => s.context.registry.Checked) file
    (fun _ _ => State.checked_interpret) Registry.Checked.start statements

/-! ### Newlines -/

/-- No state along the run of a source holds a newline. -/
theorem Compilation.absent_newline {source : Text} {statements : List Statement}
    (hread : Source.read source = .ok statements) (options : Options) (n : Nat) :
    Absent '\n' (Compilation.interpret options (statements.take n)).state.texts := by
  refine absent_interpret (by decide) (by decide) ?_ options
  intro statement hstatement token htoken hmem
  exact (Source.mem_of_read hread (List.mem_of_mem_take hstatement) htoken hmem).2 rfl

theorem Sheet.newline_not_mem_render {sheet : Sheet} (h : Absent '\n' sheet.texts) {minify : Bool}
    {css : Text} (hcss : sheet.render minify = .ok css) : '\n' ∉ css := by
  have hwrite : '\n' ∉ sheet.css.write :=
    Css.not_mem_write (by decide) (Sheet.absent_css h (by decide) (by decide))
  unfold Sheet.render at hcss
  split at hcss
  · cases hcss
    cases minify with
    | false => exact hwrite
    | true => exact fun hmem => hwrite (Text.mem_of_mem_dropBefore hmem)
  · cases hcss

/-- **Only identifiers are bound.**  Along the run of a source that can be read, whatever the
    options, no text in any state has a newline in it, every variable with an explicit value is
    an ASCII letter followed by ASCII letters and digits, and the sheet can be written down
    either way without a newline.  In particular so can the sheet at the end. -/
theorem Compilation.only_identifiers_bound (source : Text) (statements : List Statement)
    (hread : Source.read source = .ok statements) (options : Options) :
    (∀ n : Nat,
      let state := (Compilation.interpret options (statements.take n)).state
      (∀ text ∈ state.texts, '\n' ∉ text) ∧
      (∀ entry ∈ state.context.registry.collections.entries, ∀ name ∈ entry.2.values.names,
        Name.IsIdentifier name) ∧
      ∀ minify : Bool, ∃ css, state.sheet.render minify = .ok css ∧ '\n' ∉ css) ∧
    ∃ compilation, Compilation.ofSource options source = .ok compilation ∧
      compilation.run = Compilation.interpret options statements ∧ '\n' ∉ compilation.css := by
  have hrender : ∀ (n : Nat) (minify : Bool), ∃ css,
      (Compilation.interpret options (statements.take n)).state.sheet.render minify = .ok css ∧
        '\n' ∉ css := by
    intro n minify
    obtain ⟨css, hcss⟩ := (Run.filled_statements options.sourceName { strict := options.strict }
      (statements.take n)).render minify
    have hsheet := (State.absent_texts.mp (absent_newline hread options n)).2
    exact ⟨css, hcss, Sheet.newline_not_mem_render hsheet hcss⟩
  refine ⟨?_, ?_⟩
  · intro n state
    have hfree : Absent '\n' state.texts := absent_newline hread options n
    refine ⟨hfree, ?_, hrender n⟩
    intro entry hentry name hname
    have hchecked : state.context.registry.Checked :=
      Run.checked_statements options.sourceName { strict := options.strict } (statements.take n)
    refine Name.isIdentifier_of_isValid ((hchecked entry hentry).names name hname) ?_
    have hcollections := (Registry.absent_texts.mp (State.absent_texts.mp hfree).1).2
    have hentry := Collection.absent_texts.mp (Table.absent_texts.mp hcollections entry hentry).2
    obtain ⟨binding, hbinding, rfl⟩ := List.mem_map.mp hname
    exact (Table.absent_words.mp hentry.2.2.1 binding hbinding).1
  · obtain ⟨css, hcss, hfree⟩ := hrender statements.length options.minify
    rw [List.take_length] at hcss
    exact ⟨{ css, run := interpret options statements }, ofSource_of_render hread hcss, rfl, hfree⟩

/-- A variable bound to another one with something after it, and a quoted value. -/
theorem Compilation.only_identifiers_bound_referring :
    let source : Text := "@ gap 4px\n# card\n@ inner2 &gap,auto\n".toList ++
      "$ .a inset \"&inner2 \\\\ n\"".toList
    let statements : List Statement :=
      [{ content := ["@".toList, "gap".toList, "4px".toList], index := some 1 },
       { content := ["#".toList, "card".toList], index := some 2 },
       { content := ["@".toList, "inner2".toList, "&gap,auto".toList], index := some 3 },
       { content := ["$".toList, ".a".toList, "inset".toList, "&inner2 \\ n".toList],
         index := some 4 }]
    Source.read source = .ok statements ∧
      (∃ entry ∈ (Compilation.interpret { strict := true }
          (statements.take 3)).state.context.registry.collections.entries,
        "inner2".toList ∈ entry.2.values.names ∧ Name.IsIdentifier "inner2".toList) ∧
      ∃ compilation, Compilation.ofSource { strict := true } source = .ok compilation ∧
        compilation.css = ".a\x7binset:4px,auto \\ n;\x7d".toList ∧ '\n' ∉ compilation.css := by
  intro source statements
  have hread : Source.read source = .ok statements := by decide +kernel
  have hbound : ∃ entry ∈ (Compilation.interpret { strict := true }
      (statements.take 3)).state.context.registry.collections.entries,
      "inner2".toList ∈ entry.2.values.names := by decide +kernel
  have hcss : (Compilation.ofSource { strict := true } source).toOption.map Compilation.css =
      some ".a\x7binset:4px,auto \\ n;\x7d".toList := by decide +kernel
  obtain ⟨hstates, compilation, hcompilation, -, hfree⟩ :=
    only_identifiers_bound source statements hread { strict := true }
  obtain ⟨-, hidentifiers, -⟩ := hstates 3
  obtain ⟨entry, hentry, hinner⟩ := hbound
  refine ⟨hread, ⟨entry, hentry, hinner, hidentifiers entry hentry _ hinner⟩,
    compilation, hcompilation, ?_, hfree⟩
  rw [hcompilation] at hcss
  exact Option.some.inj hcss

end Dyehouse
