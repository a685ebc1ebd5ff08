import Mathlib.Data.List.Forall2
import Dyehouse.Proofs.Bindings

/-!
# Names and the references to them

A name is looked at three times: it is checked when a variable is given it, read off a token that
refers to it, and looked up in the scope.  The three agree on identifiers.  An identifier is
accepted, it is what a reference to it is read as, with whatever follows that does not go on with
it, and the active collection is the first place that is looked in; so a variable that has just
been assigned is what a reference to it stands for.

They do not agree on everything.  The check lets one newline through at the end of a name, while a
reference ends its name before the newline, so a variable under such a name can be given a value
and never be referred to (`Name.accepts_iff`, `Reference.IsName.newline_not_mem`).
-/

namespace Dyehouse

/-! ### What is read as a reference -/

theorem Name.isIdentifier_iff {t : Text} : IsIdentifier t ↔ '/' ∉ t ∧ Reference.IsName t := by
  constructor
  · intro h
    refine ⟨h.slash_not_mem, ?_⟩
    cases t with
    | nil => cases h
    | cons first rest =>
      refine ⟨h.1, ?_⟩
      intro c hc
      rw [Reference.isNameChar, h.2 c hc, Bool.true_or]
  · rintro ⟨hslash, hname⟩
    cases t with
    | nil => cases hname
    | cons first rest =>
      refine ⟨hname.1, ?_⟩
      intro c hc
      have hchar := hname.2 c hc
      rw [Reference.isNameChar, Bool.or_eq_true, beq_iff_eq] at hchar
      rcases hchar with halnum | rfl
      · exact halnum
      · exact absurd (List.mem_cons_of_mem _ hc) hslash

namespace Reference

/-- The tokens that are read as references. -/
theorem ofToken?_eq_some_iff {token : Text} {r : Reference} :
    ofToken? token = some r ↔ token = r.token ∧ IsName r.name ∧ EndsName r.suffix := by
  constructor
  · intro h
    refine ⟨(token_of_ofToken? h).symm, ?_⟩
    unfold ofToken? at h
    split at h
    · next first rest =>
      split at h
      · next hfirst =>
        cases h
        refine ⟨⟨hfirst, List.all_eq_true.mp List.all_takeWhile⟩, ?_⟩
        intro c hc
        have hstop := List.head?_dropWhile_not isNameChar rest
        rw [Option.mem_def.mp hc] at hstop
        exact hstop
      · cases h
    · cases h
  · rintro ⟨rfl, hname, hsuffix⟩
    exact ofToken?_of_isName hname hsuffix

theorem endsName_nil : EndsName [] := by
  rintro c ⟨⟩

theorem IsName.newline_not_mem {name : Text} (h : IsName name) : '\n' ∉ name := by
  cases name with
  | nil => cases h
  | cons first rest =>
    rw [List.mem_cons, not_or]
    constructor
    · rintro rfl
      exact absurd h.1 (by decide)
    · intro hmem
      exact absurd (h.2 '\n' hmem) (by decide)

end Reference

/-! ### What is accepted as a name -/

namespace Name

theorem accepts_iff {name : Option Text} :
    accepts name = true ↔
      ∃ word, IsIdentifier word ∧ (name = some word ∨ name = some (word ++ ['\n'])) := by
  cases name with
  | none =>
    refine iff_of_false Bool.false_ne_true ?_
    rintro ⟨word, -, hword | hword⟩
    · cases hword
    · cases hword
  | some t =>
    rw [accepts, isValid_iff]
    simp only [Option.some.injEq]

theorem IsIdentifier.newline_not_mem {t : Text} (h : IsIdentifier t) : '\n' ∉ t :=
  (isIdentifier_iff.mp h).2.newline_not_mem

/-- An accepted name is an identifier unless it ends in a newline. -/
theorem isIdentifier_iff_of_accepts {t : Text} (h : accepts (some t) = true) :
    IsIdentifier t ↔ t.getLast? ≠ some '\n' := by
  constructor
  · intro hidentifier hlast
    exact hidentifier.newline_not_mem (List.mem_of_getLast? hlast)
  · intro hlast
    obtain ⟨word, hword, heq | heq⟩ := accepts_iff.mp h
    · cases heq
      exact hword
    · cases heq
      exact absurd List.getLast?_concat hlast

/-- **Names are accepted up to a newline.**  A name is accepted exactly if it is there and is an
    ASCII letter followed by ASCII letters and digits, or such a word with one newline after it.
    The words themselves are the texts that a reference to them is read as, whole, without a slash
    and with nothing left over; so the check and the references agree on every text that does not
    end in a newline.  A name that is accepted can be referred to exactly if it does not. -/
theorem accepts_up_to_newline (name : Option Text) :
    (accepts name = true ↔
      ∃ word, IsIdentifier word ∧ (name = some word ∨ name = some (word ++ ['\n']))) ∧
    ∀ t, name = some t →
      (IsIdentifier t ↔
        '/' ∉ t ∧ Reference.ofToken? ('&' :: t) = some { name := t, suffix := [] }) ∧
      (t.getLast? ≠ some '\n' → (accepts name = true ↔ IsIdentifier t)) ∧
      (accepts name = true →
        ((∃ token r, Reference.ofToken? token = some r ∧ r.name = t) ↔
          t.getLast? ≠ some '\n')) := by
  refine ⟨accepts_iff, ?_⟩
  rintro t rfl
  have hwhole : '&' :: t = Reference.token { name := t, suffix := [] } := by
    rw [Reference.token, List.append_nil]
  refine ⟨?_, ?_, ?_⟩
  · rw [isIdentifier_iff, Reference.ofToken?_eq_some_iff, hwhole]
    simp [Reference.endsName_nil]
  · intro hlast
    constructor
    · intro haccepts
      exact (isIdentifier_iff_of_accepts haccepts).mpr hlast
    · intro hidentifier
      exact accepts_iff.mpr ⟨t, hidentifier, .inl rfl⟩
  · intro haccepts
    rw [← isIdentifier_iff_of_accepts haccepts]
    constructor
    · rintro ⟨token, r, hr, rfl⟩
      obtain ⟨-, hname, -⟩ := Reference.ofToken?_eq_some_iff.mp hr
      rw [isIdentifier_iff_of_accepts haccepts]
      exact fun hlast => hname.newline_not_mem (List.mem_of_getLast? hlast)
    · intro hidentifier
      refine ⟨'&' :: t, { name := t, suffix := [] }, ?_, rfl⟩
      rw [hwhole]
      exact Reference.ofToken?_eq_some_iff.mpr
        ⟨rfl, (isIdentifier_iff.mp hidentifier).2, Reference.endsName_nil⟩

/-- A word with a digit, and the same word with a newline after it, which no token refers to. -/
theorem accepts_up_to_newline_digit :
    let word : Text := "gap2".toList
    (word.getLast? ≠ some '\n' ∧ accepts (some word) = true ∧ IsIdentifier word ∧
      ∃ token r, Reference.ofToken? token = some r ∧ r.name = word) ∧
    accepts (some (word ++ ['\n'])) = true ∧
      ¬ ∃ token r, Reference.ofToken? token = some r ∧ r.name = word ++ ['\n'] := by
  intro word
  have hlast : word.getLast? ≠ some '\n' := by decide
  have haccepts : accepts (some word) = true := by decide
  have haccepts' : accepts (some (word ++ ['\n'])) = true := by decide
  obtain ⟨-, hagree, hrefer⟩ := (accepts_up_to_newline (some word)).2 word rfl
  obtain ⟨-, -, hrefer'⟩ := (accepts_up_to_newline (some (word ++ ['\n']))).2 _ rfl
  refine ⟨⟨hlast, haccepts, (hagree hlast).mp haccepts, (hrefer haccepts).mpr hlast⟩, haccepts', ?_⟩
  intro hexists
  exact (hrefer' haccepts').mp hexists List.getLast?_concat

/-- A name that ends in a newline is accepted and is no identifier: a reference to it is read as
    one to the word before the newline, so the value that it is assigned is not found. -/
theorem newline_accepted :
    let name : Text := "gap\n".toList
    let statement : Statement := { content := ["@".toList, name, "4px".toList] }
    let after := (State.interpret none {} statement).state
    accepts (some name) = true ∧ ¬ IsIdentifier name ∧
      Reference.ofToken? ('&' :: name) = some { name := "gap".toList, suffix := ['\n'] } ∧
      (State.interpret none {} statement).log = [] ∧
      after.context.registry.active.explicit? name = some "4px".toList ∧
      after.context.evaluate ('&' :: name) = .ok ('&' :: name) := by
  decide +kernel

end Name

/-! ### What has just been assigned -/

theorem Context.forall₂_of_evaluateAll {c : Context} {tokens values : List Text}
    (h : c.evaluateAll tokens = .ok values) :
    List.Forall₂ (fun token value => c.evaluate token = .ok value) tokens values := by
  induction tokens generalizing values with
  | nil =>
    cases h
    exact .nil
  | cons token rest ih =>
    rw [evaluateAll] at h
    split at h
    · cases h
    · next value hvalue =>
      split at h
      · cases h
      · next others hothers =>
        cases h
        exact .cons hvalue (ih hothers)

theorem lastValue?_isSome {name : Text} {pairs : List (Text × Text)}
    (h : name ∈ pairs.map Prod.fst) : ∃ value, lastValue? name pairs = some value := by
  induction pairs with
  | nil => cases h
  | cons pair rest ih =>
    rw [lastValue?_cons]
    cases hlater : lastValue? name rest with
    | some value => exact ⟨value, rfl⟩
    | none =>
      rw [List.map_cons, List.mem_cons] at h
      rcases h with rfl | hrest
      · exact ⟨pair.2, by rw [if_pos rfl, Option.none_or]⟩
      · obtain ⟨value, hvalue⟩ := ih hrest
        rw [hlater] at hvalue
        cases hvalue

theorem Registry.active_assignAll (r : Registry) (pairs : List (Text × Text)) :
    (r.assignAll pairs).active = r.active.assignAll pairs := by
  have hscope : (r.assignAll pairs).scope = r.scope := by
    induction pairs generalizing r with
    | nil => rfl
    | cons pair rest ih => exact ih (r.updateActive fun c => c.assign pair.1 pair.2)
  rw [active, hscope, content_assignAll, if_pos rfl]
  rfl

/-- What the active collection gives a value is found first. -/
theorem Registry.get?_of_active {r : Registry} {name value : Text} (hname : '/' ∉ name)
    (h : r.active.explicit? name = some value) : r.get? name = some value := by
  rw [get?, Text.splitLast_eq_none hname]
  have hfirst : (r.content r.scope.active).explicit? name = some value := h
  simp only [Scope.get?, Scope.chain, List.findSome?_cons, hfirst, Option.some_or]

theorem Context.evaluate_of_active {c : Context} {name value suffix : Text}
    (hname : Name.IsIdentifier name) (hsuffix : Reference.EndsName suffix)
    (h : c.registry.active.explicit? name = some value) :
    c.evaluate ('&' :: (name ++ suffix)) = .ok (value ++ suffix) := by
  obtain ⟨hslash, href⟩ := Name.isIdentifier_iff.mp hname
  rw [evaluate, Reference.ofToken?_of_isName href hsuffix]
  simp only [Registry.get?_of_active hslash h]

/-- **A variable that has just been assigned is what a reference to it stands for.**  Let a run
    whose tokens hold no newline lead to the state `s`, whatever its scope, its collections with
    their values and defaults and its modes are by then, and let an assignment without newlines be
    carried out there.  Then all its tokens have been evaluated in `s`, those that refer to
    variables which the statement itself assigns included; and for every name `n` that it binds,
    with `w` the value of the last pair for `n`, the token `&n` followed by anything that does not
    go on with the name stands for `w` and what follows, in strict mode and outside it. -/
theorem Run.assigned_is_referred_to (file : Option Text) (strict : Bool)
    (earlier : List Statement)
    (hearlier : ∀ statement ∈ earlier, ∀ token ∈ statement.content, '\n' ∉ token)
    (s : State)
    (hs : (Run.statements file { context := { modes := { strict } } } earlier).state = s)
    (statement : Statement) (hstatement : ∀ token ∈ statement.content, '\n' ∉ token)
    (hkeyword : s.context.keyword? statement.content = some .assign)
    (hfails : s.fails file statement = false) :
    let after := (s.interpret file statement).state
    ∃ query words pairs,
      List.Forall₂ (fun token value => s.context.evaluate token = .ok value)
        statement.content (query :: words) ∧
      Keyword.ofToken? query = some .assign ∧ pairUp words = .ok pairs ∧
      after.context.registry = s.context.registry.assignAll pairs ∧
      ∀ n ∈ pairs.map Prod.fst, ∃ w, lastValue? n pairs = some w ∧
        ∀ (modes : Modes) (suffix : Text), Reference.EndsName suffix →
          ({ registry := after.context.registry, modes } : Context).evaluate
            ('&' :: (n ++ suffix)) = .ok (w ++ suffix) := by
  intro after
  obtain ⟨⟨_, words⟩, hcommand, rfl⟩ := Option.map_eq_some_iff.mp hkeyword
  obtain ⟨query, hvalues, -, hquery⟩ := Context.exists_of_command? hcommand
  obtain ⟨pairs, hpairs, hvalid, -, hregistry⟩ := State.exists_bindings? hfails hcommand
  refine ⟨query, words, pairs, Context.forall₂_of_evaluateAll hvalues, hquery, hpairs, hregistry,
    ?_⟩
  intro n hn
  obtain ⟨w, hw⟩ := lastValue?_isSome hn
  refine ⟨w, hw, ?_⟩
  intro modes suffix hsuffix
  -- no newline has come into the state, so none is in the names
  have hstate : Absent '\n' s.texts := by
    rw [← hs]
    exact Run.absent_statements (by decide) (by decide) (State.absent_start (by decide) _) hearlier
  have hwords := (absent_cons.mp (Context.absent_evaluateAll (by decide)
    (State.absent_texts.mp hstate).1 hstatement hvalues)).2
  obtain ⟨pair, hpair, rfl⟩ := List.mem_map.mp hn
  have hname : Name.IsIdentifier pair.1 := Name.isIdentifier_of_isValid (hvalid pair hpair)
    (hwords _ (Context.mem_of_pairUp hpairs pair hpair).1)
  apply Context.evaluate_of_active hname hsuffix
  rw [hregistry, Registry.active_assignAll, Collection.explicit?_assignAll, hw, Option.some_or]

/-- The first name is itself a reference; the values refer to the variable that the statement
    assigns twice, which until then is one of a loaded collection, and which `root` and a default
    of the active collection have values for as well. -/
theorem Run.assigned_is_referred_to_shadowing :
    let gap : Text := "gap".toList
    let earlier : List Statement :=
      [{ content := ["@".toList, gap, "1px".toList] },
       { content := ["#".toList, "base".toList] },
       { content := ["@".toList, gap, "2px".toList] },
       { content := ["#".toList, "page".toList, "base".toList] },
       { content := ["!@".toList, gap, "3px".toList] },
       { content := ["@".toList, "name".toList, gap] }]
    let content : List Text :=
      ["@".toList, "&name".toList, "&gap".toList, gap, "&gap,auto".toList, "side".toList,
       "&gap".toList]
    ∃ s : State, Run.statements none { context := { modes := { strict := true } } } earlier =
        { state := s } ∧
      s.context.keyword? content = some .assign ∧ s.fails none { content } = false ∧
      ∀ modes : Modes,
        let context : Context :=
          { registry := (s.interpret none { content }).state.context.registry, modes }
        context.evaluate "&gap!important".toList = .ok "2px,auto!important".toList ∧
          context.evaluate "&side".toList = .ok "2px".toList := by
  intro gap earlier content
  have hearlier : ∀ statement ∈ earlier, ∀ token ∈ statement.content, '\n' ∉ token := by
    decide +kernel
  have hcontent : ∀ token ∈ content, '\n' ∉ token := by decide +kernel
  obtain ⟨s, hs, hkeyword, hfails, hvalues⟩ : ∃ s : State,
      Run.statements none { context := { modes := { strict := true } } } earlier = { state := s } ∧
      s.context.keyword? content = some .assign ∧ s.fails none { content } = false ∧
      s.context.evaluateAll content = .ok ["@".toList, gap, "2px".toList, gap, "2px,auto".toList,
        "side".toList, "2px".toList] :=
    ⟨(Run.statements none { context := { modes := { strict := true } } } earlier).state,
      by decide +kernel, by decide +kernel, by decide +kernel, by decide +kernel⟩
  obtain ⟨query, words, pairs, hread, -, hpairs, -, hbound⟩ := Run.assigned_is_referred_to none true
    earlier hearlier s (congrArg Run.state hs) { content } hcontent hkeyword hfails
  have hwords := Relator.RightUnique.forall₂
    (fun _ _ _ h h' => Except.ok.inj (h.symm.trans h')) hread
    (Context.forall₂_of_evaluateAll hvalues)
  cases hwords
  cases hpairs
  have hsuffix : Reference.EndsName "!important".toList := by
    rintro _ ⟨⟩
    rfl
  obtain ⟨w, hw, hgap⟩ := hbound gap (by decide)
  cases hw
  obtain ⟨v, hv, hside⟩ := hbound "side".toList (by decide)
  cases hv
  refine ⟨s, hs, hkeyword, hfails, ?_⟩
  intro modes context
  exact ⟨hgap modes _ hsuffix, hside modes [] Reference.endsName_nil⟩

end Dyehouse
