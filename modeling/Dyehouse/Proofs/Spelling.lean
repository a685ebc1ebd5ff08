import Mathlib
import Dyehouse.Text.Blank
import Dyehouse.Text.Case

/-!
# Property names in the two spellings

The spelling with dashes does not tell all texts apart: a capital and a dash before a small
letter are written alike.  The spelling with capitals leaves no dash before a small letter
(`isCamel_camelCase`), and texts without one are told apart (`kebabCase_inj`).

What `camelCase` puts in place of a dash and the character after it is always an ASCII letter
or digit.  That is all that is needed to see that it neither brings in a character that ends an
item of a comma list nor a blank at either end.

A digit has no capital, so the way to the spelling with capitals and back drops the dashes that
stand directly before a digit (`kebabCase_camelCase`).  The other way round a dash before a small
letter or a digit is taken for one that a capital was given (`camelCase_kebabCase`).  No dash that
is dropped comes back elsewhere, because the text gets shorter by each of them; so the texts that
come back as they were are exactly those without such a dash (`spelled_there_and_back`).
-/

namespace Dyehouse.Text

/-! ### Dashes before small letters -/

/-- No dash stands directly before an ASCII small letter. -/
def IsCamel (t : Text) : Prop :=
  ∀ c, ['-', c] <:+: t → c.isLower = false

theorem isCamel_nil : IsCamel [] := by
  intro c hc
  cases List.eq_nil_of_infix_nil hc

theorem isCamel_cons {first : Char} {rest : Text} :
    IsCamel (first :: rest) ↔
      (first = '-' → ∀ c ∈ rest.head?, c.isLower = false) ∧ IsCamel rest := by
  constructor
  · intro h
    constructor
    · rintro rfl c hc
      obtain ⟨others, rfl⟩ := List.head?_eq_some_iff.mp hc
      exact h c ⟨[], others, rfl⟩
    · intro c hc
      exact h c (List.infix_cons hc)
  · rintro ⟨hfirst, hrest⟩ c hc
    rcases List.infix_cons_iff.mp hc with hstart | hlater
    · obtain ⟨rfl, others, rfl⟩ := List.cons_prefix_cons.mp hstart
      exact hfirst rfl c rfl
    · exact hrest c hlater

/-! ### Letters and digits -/

theorem toNat_of_isAlphanum {c : Char} (h : c.isAlphanum = true) :
    (65 ≤ c.toNat ∧ c.toNat ≤ 90 ∨ 97 ≤ c.toNat ∧ c.toNat ≤ 122) ∨
      48 ≤ c.toNat ∧ c.toNat ≤ 57 := by
  simpa [Char.isAlphanum, Char.isAlpha, Char.isUpper, Char.isLower, Char.isDigit,
    UInt32.le_iff_toNat_le] using h

theorem isBlank_of_isAlphanum {c : Char} (h : c.isAlphanum = true) : isBlank c = false := by
  have hrange := toNat_of_isAlphanum h
  simp only [isBlank, within, blankRanges, List.any_cons, List.any_nil, Bool.or_false,
    Bool.or_eq_false_iff, Bool.and_eq_false_imp, decide_eq_true_eq, decide_eq_false_iff_not]
  omega

theorem isAlpha_of_isDigit {c : Char} (h : c.isDigit = true) : c.isAlpha = false := by
  simp only [Char.isDigit, Char.isAlpha, Char.isUpper, Char.isLower, UInt32.le_iff_toNat_le,
    Bool.and_eq_true, decide_eq_true_eq, ge_iff_le, Bool.or_eq_false_iff, Bool.and_eq_false_imp,
    decide_eq_false_iff_not] at h ⊢
  have h9 : '9'.val.toNat = 57 := rfl
  have hA : 'A'.val.toNat = 65 := rfl
  have ha : 'a'.val.toNat = 97 := rfl
  omega

theorem not_isLower_of_isDigit {c : Char} (h : c.isDigit = true) : ¬ c.isLower = true := by
  have hletter := isAlpha_of_isDigit h
  rw [Char.isAlpha, Bool.or_eq_false_iff] at hletter
  simp [hletter.2]

theorem isAlphanum_toUpper {c : Char} (h : c.isAlphanum = true) : c.toUpper.isAlphanum = true := by
  rw [Char.isAlphanum, Bool.or_eq_true] at h ⊢
  rcases h with halpha | hdigit
  · exact Or.inl (by rwa [Char.isAlpha_toUpper_eq_isAlpha])
  · right
    rwa [Char.toUpper_eq_of_not_isLower (not_isLower_of_isDigit hdigit)]

theorem isLower_of_isAlphanum {c : Char} (h : c.isAlphanum = false) : c.isLower = false := by
  simp only [Char.isAlphanum, Char.isAlpha, Bool.or_eq_false_iff] at h
  exact h.1.2

/-! ### The spelling with capitals -/

theorem mem_camelCase {c : Char} {t : Text} (h : c ∈ camelCase t) :
    c ∈ t ∨ c.isAlphanum = true := by
  unfold camelCase at h
  fun_induction closeUp Char.isAlphanum Char.toUpper t with
  | case1 => cases h
  | case2 d => exact Or.inl h
  | case3 dash d rest hd ih =>
    rcases List.mem_cons.mp h with rfl | hrest
    · exact Or.inr (isAlphanum_toUpper hd.2)
    · exact (ih hrest).imp_left fun hmem => List.mem_cons_of_mem _ (List.mem_cons_of_mem _ hmem)
  | case4 d e rest _ ih =>
    rcases List.mem_cons.mp h with rfl | hrest
    · exact Or.inl List.mem_cons_self
    · exact (ih hrest).imp_left (List.mem_cons_of_mem _)

theorem head?_camelCase (t : Text) :
    (camelCase t).head? = t.head? ∨
      ∃ c, (camelCase t).head? = some c ∧ c.isAlphanum = true ∧ c.isLower = false := by
  unfold camelCase
  fun_cases closeUp Char.isAlphanum Char.toUpper t with
  | case1 => exact Or.inl rfl
  | case2 d => exact Or.inl rfl
  | case3 dash d rest hd =>
    exact Or.inr ⟨d.toUpper, rfl, isAlphanum_toUpper hd.2, Char.isLower_toUpper_eq_false d⟩
  | case4 d e rest _ => exact Or.inl rfl

theorem getLast?_camelCase (t : Text) :
    (camelCase t).getLast? = t.getLast? ∨
      ∃ c, (camelCase t).getLast? = some c ∧ c.isAlphanum = true := by
  unfold camelCase
  fun_induction closeUp Char.isAlphanum Char.toUpper t with
  | case1 => exact Or.inl rfl
  | case2 d => exact Or.inl rfl
  | case3 dash d rest hd ih =>
    cases rest with
    | nil => exact Or.inr ⟨d.toUpper, rfl, isAlphanum_toUpper hd.2⟩
    | cons e others =>
      obtain ⟨f, more, hcamel⟩ := List.exists_cons_of_ne_nil
        (closeUp_ne_nil (List.cons_ne_nil e others))
      rw [hcamel] at ih ⊢
      rwa [List.getLast?_cons_cons, List.getLast?_cons_cons, List.getLast?_cons_cons]
  | case4 d e rest _ ih =>
    obtain ⟨f, more, hcamel⟩ := List.exists_cons_of_ne_nil
      (closeUp_ne_nil (List.cons_ne_nil e rest))
    rw [hcamel] at ih ⊢
    rwa [List.getLast?_cons_cons, List.getLast?_cons_cons]

/-- **No dash before a small letter is left.** -/
theorem isCamel_camelCase (t : Text) : IsCamel (camelCase t) := by
  unfold camelCase
  fun_induction closeUp Char.isAlphanum Char.toUpper t with
  | case1 => exact isCamel_nil
  | case2 d =>
    rw [isCamel_cons]
    refine ⟨?_, isCamel_nil⟩
    intro _ c hc
    cases hc
  | case3 dash d rest hd ih =>
    -- the capital is no dash
    rw [isCamel_cons]
    refine ⟨fun hdash => ?_, ih⟩
    have halnum := isAlphanum_toUpper hd.2
    rw [hdash] at halnum
    cases halnum
  | case4 d e rest hkeep ih =>
    rw [isCamel_cons]
    refine ⟨?_, ih⟩
    rintro rfl c hc
    -- the dash stays because `e` is no letter or digit, and `e` or a capital comes next
    have he : e.isAlphanum = false := by simpa using hkeep
    rcases head?_camelCase (e :: rest) with hsame | ⟨f, hf, -, hlower⟩
    · cases hsame.symm.trans hc
      exact isLower_of_isAlphanum he
    · cases hf.symm.trans hc
      exact hlower

/-! ### The spelling with dashes -/

theorem kebabCase_cons_of_isUpper {c : Char} (h : c.isUpper = true) (t : Text) :
    kebabCase (c :: t) = '-' :: c.toLower :: kebabCase t := by
  simp [kebabChar, h]

theorem kebabCase_cons_of_not_isUpper {c : Char} (h : c.isUpper = false) (t : Text) :
    kebabCase (c :: t) = c :: kebabCase t := by
  simp [kebabChar, h]

theorem isLower_toLower {c : Char} (h : c.isUpper = true) : c.toLower.isLower = true := by
  rw [Char.isLower_toLower_eq_isAlpha, Char.isAlpha, h, Bool.true_or]

theorem toLower_inj {c d : Char} (hc : c.isUpper = true) (hd : d.isUpper = true)
    (h : c.toLower = d.toLower) : c = d := by
  have hupper := congrArg Char.toUpper h
  rwa [Char.toUpper_toLower_eq_toUpper, Char.toUpper_toLower_eq_toUpper,
    Char.toUpper_eq_of_not_isLower (Char.not_isLower_of_isUpper hc),
    Char.toUpper_eq_of_not_isLower (Char.not_isLower_of_isUpper hd)] at hupper

/-- A text without a dash before a small letter is not written like a capital and what follows
    it unless it starts with that capital. -/
theorem isUpper_of_kebabCase_eq {c d : Char} {s t : Text} (hc : c.isUpper = true)
    (ht : IsCamel (d :: t)) (h : kebabCase (d :: t) = '-' :: c.toLower :: s) :
    d.isUpper = true := by
  by_contra hd
  rw [Bool.not_eq_true] at hd
  rw [kebabCase_cons_of_not_isUpper hd, List.cons.injEq] at h
  obtain ⟨rfl, hrest⟩ := h
  have hlower := isLower_toLower hc
  cases t with
  | nil => cases hrest
  | cons e others =>
    cases he : e.isUpper with
    | true =>
      -- what is written next would be a second dash
      rw [kebabCase_cons_of_isUpper he, List.cons.injEq] at hrest
      rw [← hrest.1] at hlower
      cases hlower
    | false =>
      rw [kebabCase_cons_of_not_isUpper he, List.cons.injEq] at hrest
      have hnot := (isCamel_cons.mp ht).1 rfl e rfl
      rw [hrest.1, hlower] at hnot
      cases hnot

theorem mem_kebabChar {c d : Char} (h : c ∈ kebabChar d) :
    c = d ∧ d.isUpper = false ∨ c = '-' ∨ c = d.toLower ∧ d.isUpper = true := by
  cases hupper : d.isUpper with
  | true => simpa [kebabChar, hupper] using h
  | false => simpa [kebabChar, hupper] using Or.inl h

theorem mem_kebabCase {c : Char} {t : Text} (h : c ∈ kebabCase t) :
    c ∈ t ∨ c = '-' ∨ c.isLower = true := by
  obtain ⟨d, hd, hc⟩ := List.mem_flatMap.mp h
  rcases mem_kebabChar hc with ⟨rfl, -⟩ | hdash | ⟨rfl, hupper⟩
  · exact Or.inl hd
  · exact Or.inr (Or.inl hdash)
  · exact Or.inr (Or.inr (isLower_toLower hupper))

theorem isUpper_of_mem_kebabCase {c : Char} {t : Text} (h : c ∈ kebabCase t) :
    c.isUpper = false := by
  obtain ⟨d, -, hc⟩ := List.mem_flatMap.mp h
  rcases mem_kebabChar hc with ⟨rfl, hupper⟩ | rfl | ⟨rfl, -⟩
  · exact hupper
  · decide
  · exact Char.isUpper_toLower_eq_false d

/-- **Texts without a dash before a small letter are told apart.** -/
theorem kebabCase_inj {s t : Text} (hs : IsCamel s) (ht : IsCamel t)
    (h : kebabCase s = kebabCase t) : s = t := by
  have hstart : ∀ (c : Char) (rest : Text), kebabCase (c :: rest) ≠ [] := by
    intro c rest
    cases hc : c.isUpper with
    | true => simp [kebabCase_cons_of_isUpper hc]
    | false => simp [kebabCase_cons_of_not_isUpper hc]
  induction s generalizing t with
  | nil =>
    cases t with
    | nil => rfl
    | cons d others => exact absurd h.symm (hstart d others)
  | cons c rest ih =>
    cases t with
    | nil => exact absurd h (hstart c rest)
    | cons d others =>
      have hrests := ih (isCamel_cons.mp hs).2 (isCamel_cons.mp ht).2
      cases hc : c.isUpper with
      | true =>
        rw [kebabCase_cons_of_isUpper hc] at h
        have hd := isUpper_of_kebabCase_eq hc ht h.symm
        rw [kebabCase_cons_of_isUpper hd, List.cons.injEq, List.cons.injEq] at h
        rw [toLower_inj hc hd h.2.1, hrests h.2.2]
      | false =>
        cases hd : d.isUpper with
        | true =>
          rw [kebabCase_cons_of_isUpper hd] at h
          rw [isUpper_of_kebabCase_eq hd hs h] at hc
          cases hc
        | false =>
          rw [kebabCase_cons_of_not_isUpper hc, kebabCase_cons_of_not_isUpper hd,
            List.cons.injEq] at h
          rw [h.1, hrests h.2]

/-! ### There and back -/

/-- The text without the dashes that stand directly before an ASCII digit. -/
def undashed : Text → Text :=
  closeUp Char.isDigit id

/-- A dash before a letter comes back, and one before a digit does not. -/
theorem kebabCase_camelCase {t : Text} (h : ∀ c ∈ t, c.isUpper = false) :
    kebabCase (camelCase t) = undashed t := by
  unfold camelCase undashed
  fun_induction closeUp Char.isAlphanum Char.toUpper t with
  | case1 => rfl
  | case2 c => exact kebabCase_cons_of_not_isUpper (h c List.mem_cons_self) []
  | case3 dash d rest hd ih =>
    obtain ⟨rfl, halnum⟩ := hd
    simp only [List.forall_mem_cons] at h
    obtain ⟨-, hupper, hrest⟩ := h
    have hne : d ≠ '-' := by
      rintro rfl
      cases halnum
    by_cases hdigit : d.isDigit = true
    · rw [Char.toUpper_eq_of_not_isLower (not_isLower_of_isDigit hdigit),
        kebabCase_cons_of_not_isUpper hupper, ih hrest, closeUp_dash hdigit]
      rfl
    · have hlower : d.isLower = true := by
        simpa [Char.isAlphanum, Char.isAlpha, hupper, hdigit] using halnum
      have hcapital : d.toUpper.isUpper = true := by
        rw [Char.isUpper_toUpper_eq_isAlpha, Char.isAlpha, hlower, Bool.or_true]
      have hback : d.toUpper.toLower = d := by
        rw [Char.toLower_toUpper_eq_toLower, Char.toLower_eq_of_not_isUpper (by simp [hupper])]
      rw [kebabCase_cons_of_isUpper hcapital, hback, ih hrest, closeUp,
        if_neg fun hpair => hdigit hpair.2, closeUp_cons_of_ne hne]
  | case4 c d rest hkeep ih =>
    rw [List.forall_mem_cons] at h
    have hdash : ¬ (c = '-' ∧ d.isDigit = true) := by
      rintro ⟨hc, hdigit⟩
      refine hkeep ⟨hc, ?_⟩
      rw [Char.isAlphanum, hdigit, Bool.or_true]
    rw [kebabCase_cons_of_not_isUpper h.1, ih h.2]
    exact (if_neg hdash).symm

section

variable {p : Char → Bool} {f : Char → Char}

theorem length_closeUp_le (t : Text) : (closeUp p f t).length ≤ t.length := by
  fun_induction closeUp p f t with
  | case1 => exact Nat.le_refl _
  | case2 c => exact Nat.le_refl _
  | case3 c d rest _ ih =>
    simp only [List.length_cons]
    omega
  | case4 c d rest _ ih =>
    simp only [List.length_cons] at ih ⊢
    omega

/-- Every dash that is dropped makes the text shorter, whatever is made of the characters after
    the dashes, so none was dropped if the text is what it was. -/
theorem closeUp_eq_self_iff {t : Text} :
    closeUp p f t = t ↔ ∀ d, ['-', d] <:+: t → p d = false := by
  fun_induction closeUp p f t with
  | case1 => simp
  | case2 c => simp [List.infix_cons_iff]
  | case3 c d rest hpair ih =>
    obtain ⟨rfl, hd⟩ := hpair
    refine iff_of_false ?_ ?_
    · intro heq
      have hshort := length_closeUp_le (p := p) (f := f) rest
      have hlength := congrArg List.length heq
      simp only [List.length_cons] at hlength
      omega
    · intro hnone
      rw [hnone d ⟨[], rest, rfl⟩] at hd
      cases hd
  | case4 c d rest hkeep ih =>
    rw [List.cons.injEq, ih]
    constructor
    · rintro ⟨-, hlater⟩ e he
      rcases List.infix_cons_iff.mp he with hstart | hin
      · simp only [List.cons_prefix_cons] at hstart
        obtain ⟨rfl, rfl, -⟩ := hstart
        simpa using hkeep
      · exact hlater e hin
    · intro hnone
      exact ⟨rfl, fun e he => hnone e (List.infix_cons he)⟩

end

theorem undashed_eq_self_iff {t : Text} :
    undashed t = t ↔ ∀ d, ['-', d] <:+: t → d.isDigit = false := by
  rw [undashed, closeUp_eq_self_iff]

/-- Whatever is no dash comes back: a capital is first given a dash, and then takes it away. -/
theorem camelCase_kebabCase_cons {c : Char} (h : c ≠ '-') (t : Text) :
    camelCase (kebabCase (c :: t)) = c :: camelCase (kebabCase t) := by
  cases hc : c.isUpper with
  | true =>
    have halnum : c.toLower.isAlphanum = true := by
      rw [Char.isAlphanum, Char.isAlpha, isLower_toLower hc, Bool.or_true, Bool.true_or]
    rw [kebabCase_cons_of_isUpper hc, camelCase, closeUp_dash halnum,
      Char.toUpper_toLower_eq_toUpper,
      Char.toUpper_eq_of_not_isLower (Char.not_isLower_of_isUpper hc)]
  | false => rw [kebabCase_cons_of_not_isUpper hc, camelCase, closeUp_cons_of_ne h]

/-- A dash stays before a character that is neither a small letter nor a digit: before a capital
    there are two dashes, of which only the second goes. -/
theorem camelCase_dash_kebabCase {d : Char} (h : (d.isLower || d.isDigit) = false) (t : Text) :
    camelCase ('-' :: kebabCase (d :: t)) = '-' :: camelCase (kebabCase (d :: t)) := by
  cases hd : d.isUpper with
  | true =>
    rw [kebabCase_cons_of_isUpper hd, camelCase, closeUp,
      if_neg fun hpair => absurd hpair.2 (by decide)]
  | false =>
    have hnot : d.isAlphanum = false := by
      rw [Bool.or_eq_false_iff] at h
      simp [Char.isAlphanum, Char.isAlpha, hd, h]
    rw [kebabCase_cons_of_not_isUpper hd, camelCase, closeUp, if_neg (by simp [hnot])]

theorem camelCase_kebabCase (t : Text) :
    camelCase (kebabCase t) = closeUp (fun c => c.isLower || c.isDigit) Char.toUpper t := by
  have hdash : '-'.isUpper = false := by decide
  fun_induction closeUp (fun c => c.isLower || c.isDigit) Char.toUpper t with
  | case1 => rfl
  | case2 c =>
    by_cases hc : c = '-'
    · subst hc
      rw [kebabCase_cons_of_not_isUpper hdash]
      rfl
    · exact camelCase_kebabCase_cons hc []
  | case3 dash d rest hpair ih =>
    obtain ⟨rfl, hd⟩ := hpair
    rw [Bool.or_eq_true] at hd
    have hupper : d.isUpper = false := by
      rcases hd with hlower | hdigit
      · simpa using Char.not_isUpper_of_isLower hlower
      · have hletter := isAlpha_of_isDigit hdigit
        rw [Char.isAlpha, Bool.or_eq_false_iff] at hletter
        exact hletter.1
    have halnum : d.isAlphanum = true := by
      rcases hd with hlower | hdigit
      · rw [Char.isAlphanum, Char.isAlpha, hlower, Bool.or_true, Bool.true_or]
      · rw [Char.isAlphanum, hdigit, Bool.or_true]
    rw [kebabCase_cons_of_not_isUpper hdash, kebabCase_cons_of_not_isUpper hupper,
      camelCase, closeUp_dash halnum, ← camelCase, ih]
  | case4 c d rest hkeep ih =>
    by_cases hc : c = '-'
    · subst hc
      rw [kebabCase_cons_of_not_isUpper hdash, camelCase_dash_kebabCase (by simpa using hkeep), ih]
    · rw [camelCase_kebabCase_cons hc, ih]

/-- **The texts that come back as they were.**  By way of the spelling with capitals a text comes
    back exactly if it has no ASCII capital and no dash directly before an ASCII digit; by way of
    the spelling with dashes, exactly if it has no dash directly before an ASCII small letter or
    digit. -/
theorem spelled_there_and_back (t : Text) :
    (kebabCase (camelCase t) = t ↔
      (∀ c ∈ t, c.isUpper = false) ∧ ∀ d, ['-', d] <:+: t → d.isDigit = false) ∧
    (camelCase (kebabCase t) = t ↔
      ∀ d, ['-', d] <:+: t → d.isLower = false ∧ d.isDigit = false) := by
  constructor
  · constructor
    · intro hback
      have hsmall : ∀ c ∈ t, c.isUpper = false := by
        intro c hc
        rw [← hback] at hc
        exact isUpper_of_mem_kebabCase hc
      rw [kebabCase_camelCase hsmall] at hback
      exact ⟨hsmall, undashed_eq_self_iff.mp hback⟩
    · rintro ⟨hsmall, hdigits⟩
      rw [kebabCase_camelCase hsmall, undashed_eq_self_iff]
      exact hdigits
  · rw [camelCase_kebabCase, closeUp_eq_self_iff]
    simp only [Bool.or_eq_false_iff]

end Dyehouse.Text
