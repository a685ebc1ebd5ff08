import Dyehouse.Proofs.Keys
import Dyehouse.Proofs.Lines

/-!
# Comma lists are shorthand

The words of a statement of declarations are a comma list of selectors, and then comma lists of
properties, each with a value.  Such a statement does what statements with one selector, one
property and one value do one after the other, whatever route the declarations take: into a
style, where values add up, or into a frame or a font, where the last value counts.  It is turned
down before anything is written.
-/

namespace Dyehouse

/-! ### Words two by two -/

/-- The words two by two.  A last word that has no partner is left out. -/
def twos : List Text → List (Text × Text)
  | first :: second :: rest => (first, second) :: twos rest
  | _ => []

theorem pairUp_of_even {words : List Text} (h : words.length % 2 = 0) :
    pairUp words = .ok (twos words) := by
  fun_induction pairUp words with
  | case1 => rfl
  | case2 last => cases h
  | case3 first second rest last hrest ih =>
    rw [List.length_cons, List.length_cons] at h
    rw [ih (by omega)] at hrest
    cases hrest
  | case4 first second rest pairs hrest ih =>
    rw [List.length_cons, List.length_cons] at h
    rw [ih (by omega)] at hrest
    cases hrest
    rfl

theorem pairUp_of_odd {words : List Text} (h : words.length % 2 = 1) :
    ∃ last, pairUp words = .error last := by
  fun_induction pairUp words with
  | case1 => cases h
  | case2 last => exact ⟨last, rfl⟩
  | case3 first second rest last hrest ih => exact ⟨last, rfl⟩
  | case4 first second rest pairs hrest ih =>
    rw [List.length_cons, List.length_cons] at h
    obtain ⟨last, hlast⟩ := ih (by omega)
    rw [hlast] at hrest
    cases hrest

/-- An item is a comma list of itself alone. -/
theorem Text.IsItem.items_eq {t : Text} (h : t.IsItem) : Text.items t = [t] := by
  rw [Text.items, List.splitOn_eq_singleton h.comma, Text.tidy, List.map_singleton, h.strip_eq,
    List.filter_cons_of_pos (by simpa using h.ne_nil), List.filter_nil]

/-- The words of the statements that the words of a statement are short for: for every value,
    for every property that it is given to, one statement for each selector. -/
def singles : List Text → List (List Text)
  | [] => []
  | list :: rest => (twos rest).flatMap fun pair => (Text.items pair.1).flatMap fun property =>
      (Text.items list).map fun selector => [selector, property, pair.2]

/-! ### Statements one after the other -/

namespace Action

theorem run_style_single {selector property : Text} (hselector : selector.IsItem)
    (hproperty : property.IsItem) (value : Text) (p : Progress) :
    (style [selector, property, value]).run p =
      .ok () (p.edit (.declare p.state.context.registry.active selector
        (Text.camelCase property) value)) := by
  have hplan : p.state.context.style [selector, property, value] =
      .ok { context := p.state.context
            edits := [.declare p.state.context.registry.active selector
              (Text.camelCase property) value] } := by
    simp [Context.style, hselector.items_eq, hproperty.items_eq, pairUp, declarations, declareAll]
  rw [run_style, hplan, Progress.settle, ← Progress.foldl_edit]
  rfl

/-- Runs of statements that come to edits, put together.  What the edits depend on is the
    context, and no edit changes it. -/
theorem run_forM_flatMap {α : Type} {items : List α} {queues : α → List (List Text)}
    {edits : α → List Edit} {context : Context}
    (h : ∀ item ∈ items, ∀ p : Progress, p.state.context = context →
      ((queues item).forM style).run p = .ok () ((edits item).foldl Progress.edit p))
    {p : Progress} (hp : p.state.context = context) :
    ((items.flatMap queues).forM style).run p =
      .ok () ((items.flatMap edits).foldl Progress.edit p) := by
  induction items generalizing p with
  | nil => rfl
  | cons item rest ih =>
    rw [List.forall_mem_cons] at h
    have hsame : ((edits item).foldl Progress.edit p).state.context = context := by
      rw [Progress.foldl_edit]
      exact hp
    rw [List.flatMap_cons, List.flatMap_cons, List.foldl_append]
    change EStateM.run (forM (queues item ++ rest.flatMap queues) style) p = _
    rw [List.forM_append, EStateM.run_bind, ← List.forM_eq_forM, h.1 p hp]
    exact ih h.2 hsame

theorem declareAll_declarations (active : Collection) (selectors : List Text)
    (pairs : List (Text × Text)) :
    declareAll active selectors (declarations pairs) =
      pairs.flatMap fun pair => (Text.items pair.1).flatMap fun property =>
        selectors.flatMap fun selector =>
          [Edit.declare active selector (Text.camelCase property) pair.2] := by
  simp only [declareAll, declarations, List.flatMap_assoc, List.map_eq_flatMap,
    List.flatMap_singleton]

/-- The statements with one selector, one property and one value make the edits of the one
    statement that is short for them, in the same order. -/
theorem run_forM_singles (list : Text) (rest : List Text) (p : Progress) :
    ((singles (list :: rest)).forM style).run p =
      .ok () ((declareAll p.state.context.registry.active (Text.items list)
        (declarations (twos rest))).foldl Progress.edit p) := by
  rw [declareAll_declarations, singles]
  refine run_forM_flatMap (fun pair _ p₁ hp₁ => ?_) rfl
  refine run_forM_flatMap (fun property hproperty p₂ hp₂ => ?_) hp₁
  rw [List.map_eq_flatMap]
  refine run_forM_flatMap (fun selector hselector p₃ hp₃ => ?_) hp₂
  have hsingle := run_style_single (Text.isItem_of_mem_items hselector)
    (Text.isItem_of_mem_items hproperty) pair.2 p₃
  rw [hp₃] at hsingle
  simpa using hsingle

theorem run_style_of_even {list : Text} {rest : List Text} (hlist : Text.items list ≠ [])
    (hrest : rest.length % 2 = 0) (p : Progress) :
    (style (list :: rest)).run p =
      .ok () ((declareAll p.state.context.registry.active (Text.items list)
        (declarations (twos rest))).foldl Progress.edit p) := by
  rw [run_style, Context.style, if_neg (by simpa using hlist), pairUp_of_even hrest,
    Progress.foldl_edit]
  rfl

theorem eq_of_run_style_error {words : List Text} {p q : Progress} {fault : Fault}
    (h : (style words).run p = .error fault q) : q = p := by
  rw [run_style] at h
  cases hplan : p.state.context.style words with
  | error cause =>
    rw [hplan] at h
    cases h
    rfl
  | ok plan =>
    rw [hplan] at h
    cases h

/-- A statement of declarations is turned down, with nothing written, exactly if it has no words,
    if its first word has no selector in it, or if the words after that do not come in pairs. -/
theorem run_style_eq_error_iff (words : List Text) (p : Progress) :
    (∃ fault, (style words).run p = .error fault p) ↔
      words = [] ∨ words.head?.map Text.items = some [] ∨ words.tail.length % 2 = 1 := by
  cases words with
  | nil => exact ⟨fun _ => Or.inl rfl, fun _ => ⟨_, rfl⟩⟩
  | cons list rest =>
    by_cases hlist : Text.items list = []
    · refine ⟨fun _ => Or.inr (Or.inl (by simp [hlist])), fun _ => ?_⟩
      rw [run_style, Context.style, if_pos (by simpa using hlist)]
      exact ⟨_, rfl⟩
    · rcases Nat.mod_two_eq_zero_or_one rest.length with heven | hodd
      · rw [run_style_of_even hlist heven]
        simp [hlist, heven]
      · obtain ⟨last, hlast⟩ := pairUp_of_odd hodd
        refine ⟨fun _ => Or.inr (Or.inr hodd), fun _ => ?_⟩
        rw [run_style, Context.style, if_neg (by simpa using hlist), hlast]
        exact ⟨_, rfl⟩

/-- **Comma lists are shorthand.**  From any point of the work on any state, whatever the route
    of the active collection is, the words of a statement of declarations that are accepted lead
    exactly where the statements with one selector, one property and one value lead that they are
    short for, carried out one after the other: value by value, for each value property by
    property, and for each property selector by selector.  Words are turned down exactly if there
    are none, if the first of them has no selector in it, or if a property has no value, and then
    nothing has been written. -/
theorem lists_are_shorthand (words : List Text) (p : Progress) :
    (∀ q, (style words).run p = .ok () q → ((singles words).forM style).run p = .ok () q) ∧
    (∀ fault q, (style words).run p = .error fault q → q = p) ∧
    ((∃ fault q, (style words).run p = .error fault q) ↔
      words = [] ∨ words.head?.map Text.items = some [] ∨ words.tail.length % 2 = 1) := by
  refine ⟨?_, fun fault q => eq_of_run_style_error, ?_⟩
  · intro q haccepted
    have hnot : ¬∃ fault, (style words).run p = .error fault p := by
      rintro ⟨fault, herror⟩
      rw [haccepted] at herror
      cases herror
    rw [run_style_eq_error_iff] at hnot
    simp only [not_or] at hnot
    obtain ⟨hne, hlist, hrest⟩ := hnot
    obtain ⟨list, rest, rfl⟩ := List.exists_cons_of_ne_nil hne
    have heven : rest.length % 2 = 0 := (Nat.mod_two_eq_zero_or_one _).resolve_right hrest
    rw [run_style_of_even (by simpa using hlist) heven] at haccepted
    rw [run_forM_singles]
    exact haccepted
  · rw [← run_style_eq_error_iff]
    constructor
    · rintro ⟨fault, q, herror⟩
      obtain rfl := eq_of_run_style_error herror
      exact ⟨fault, herror⟩
    · rintro ⟨fault, herror⟩
      exact ⟨fault, p, herror⟩

/-- Two fonts, and a source that is given twice.  One more property without a value, and nothing
    of it is written. -/
theorem lists_are_shorthand_fonts :
    let p : Progress :=
      { state := (Run.statements none {} [{ content := ["!type".toList, "font".toList] }]).state }
    let words := ["A, ,B".toList, "src , font-weight".toList, "u".toList, "src".toList, "v".toList]
    p.state.context.registry.active.route = .font ∧
      singles words =
        [["A".toList, "src".toList, "u".toList], ["B".toList, "src".toList, "u".toList],
         ["A".toList, "font-weight".toList, "u".toList],
         ["B".toList, "font-weight".toList, "u".toList],
         ["A".toList, "src".toList, "v".toList], ["B".toList, "src".toList, "v".toList]] ∧
      (∃ q, (style words).run p = .ok () q ∧ ((singles words).forM style).run p = .ok () q) ∧
      ∃ fault, (style (words ++ ["src".toList])).run p = .error fault p := by
  intro p words
  have hroute : p.state.context.registry.active.route = .font := by decide +kernel
  have hsingles : singles words =
      [["A".toList, "src".toList, "u".toList], ["B".toList, "src".toList, "u".toList],
       ["A".toList, "font-weight".toList, "u".toList],
       ["B".toList, "font-weight".toList, "u".toList],
       ["A".toList, "src".toList, "v".toList], ["B".toList, "src".toList, "v".toList]] := by
    decide +kernel
  have hfits : ¬(words = [] ∨ words.head?.map Text.items = some [] ∨
      words.tail.length % 2 = 1) := by decide +kernel
  have hodd : (words ++ ["src".toList]).tail.length % 2 = 1 := by decide +kernel
  clear_value p
  obtain ⟨hshort, -, hrejected⟩ := lists_are_shorthand words p
  obtain ⟨-, hwhole, hturned⟩ := lists_are_shorthand (words ++ ["src".toList]) p
  refine ⟨hroute, hsingles, ?_, ?_⟩
  · cases hrun : (style words).run p with
    | ok result q => exact ⟨q, rfl, hshort q hrun⟩
    | error fault q => exact absurd (hrejected.1 ⟨fault, q, hrun⟩) hfits
  · obtain ⟨fault, q, herror⟩ := hturned.2 (Or.inr (Or.inr hodd))
    obtain rfl := hwhole fault q herror
    exact ⟨fault, herror⟩

end Action

end Dyehouse
