import Dyehouse.Proofs.Grammar
import Dyehouse.Proofs.Registry
import Dyehouse.Proofs.Sheet
import Dyehouse.Proofs.Texts

/-!
# Where the texts of a state come from

Nothing that a state holds comes from nowhere: it goes back to the tokens of the statements, by
way of values put in place of references, comma lists cut up and stripped, and properties
respelled.  So a character that stands in no token stands nowhere in the state either
(`Run.absent_statements`), unless it is one of the few that carrying out statements brings in:
letters and digits, from the spelling with capitals and from the names that are there at the
start, and the dot of a class.  A token in turn holds nothing that its source does not hold, and
no newline (`Source.mem_of_read`).
-/

namespace Dyehouse

/-! ### What a registry holds -/

def Collection.texts (collection : Collection) : List Text :=
  collection.name :: collection.tag :: (collection.values.words ++ collection.defaults.words)

def Scope.texts (s : Scope Text) : List Text :=
  s.active :: (s.root.toList ++ s.loaded)

/-- Every name, tag and value of a registry, and the names that its scope refers to. -/
def Registry.texts (r : Registry) : List Text :=
  r.scope.texts ++ r.collections.texts Collection.texts

def State.texts (s : State) : List Text :=
  s.context.registry.texts ++ s.sheet.texts

/-- The texts that a write to a collection brings along. -/
def Collection.Write.texts : Collection.Write → List Text
  | .value key text | .fallback key text => [key, text]
  | .tag text => [text]

/-- The texts that a step of a registry brings along. -/
def Registry.Step.texts : Registry.Step → List Text
  | .collection name | .activate name => [name]
  | .load names => names
  | .write holder w => holder.toList ++ w.texts

section

variable {c : Char}

/-- A word of letters and digits has no other character in it. -/
theorem Text.not_mem_of_all_isAlphanum {t : Text} (h : t.all Char.isAlphanum = true)
    (hc : c.isAlphanum = false) : c ∉ t := by
  intro hmem
  rw [List.all_eq_true.mp h c hmem] at hc
  cases hc

namespace Collection

variable {collection : Collection}

theorem absent_texts :
    Absent c collection.texts ↔ c ∉ collection.name ∧ c ∉ collection.tag ∧
      Absent c collection.values.words ∧ Absent c collection.defaults.words := by
  simp only [texts, absent_cons, absent_append]

theorem absent_named {name : Text} (hc : c.isAlphanum = false) (hname : c ∉ name) :
    Absent c (named name).texts := by
  have htag : c ∉ Route.tag .implicit := Text.not_mem_of_all_isAlphanum (by decide) hc
  exact absent_texts.mpr ⟨hname, htag, absent_nil, absent_nil⟩

theorem absent_write {w : Write} (h : Absent c collection.texts) (hw : Absent c w.texts) :
    Absent c (collection.write w).texts := by
  obtain ⟨hname, htag, hvalues, hdefaults⟩ := absent_texts.mp h
  cases w with
  | value key value =>
    obtain ⟨hkey, hvalue⟩ : c ∉ key ∧ c ∉ value := by simpa [Write.texts] using hw
    exact absent_texts.mpr ⟨hname, htag, Table.absent_insert hvalues hkey hvalue, hdefaults⟩
  | fallback key value =>
    obtain ⟨hkey, hvalue⟩ : c ∉ key ∧ c ∉ value := by simpa [Write.texts] using hw
    exact absent_texts.mpr ⟨hname, htag, hvalues, Table.absent_insert hdefaults hkey hvalue⟩
  | tag tag =>
    have hnew : c ∉ tag := by simpa [Write.texts] using hw
    exact absent_texts.mpr ⟨hname, hnew, hvalues, hdefaults⟩

theorem absent_explicit? {key value : Text} (h : Absent c collection.texts)
    (hvalue : collection.explicit? key = some value) : c ∉ value := by
  have hsingle := Table.absent_of_get? (absent_texts.mp h).2.2.1 hvalue
  exact (absent_cons.mp hsingle).1

theorem absent_default? {key value : Text} (h : Absent c collection.texts)
    (hvalue : collection.default? key = some value) : c ∉ value := by
  have hsingle := Table.absent_of_get? (absent_texts.mp h).2.2.2 hvalue
  exact (absent_cons.mp hsingle).1

end Collection

namespace Scope

variable {s : Scope Text} {content : Text → Collection}

theorem absent_texts :
    Absent c s.texts ↔ c ∉ s.active ∧ Absent c s.root.toList ∧ Absent c s.loaded := by
  simp only [texts, absent_cons, absent_append]

theorem absent_load {name : Text} (h : Absent c s.texts) (hname : c ∉ name) :
    Absent c (s.load content name).texts := by
  unfold load
  split
  · exact h
  · obtain ⟨hactive, hroot, hloaded⟩ := absent_texts.mp h
    have hlonger : Absent c (s.loaded ++ [name]) :=
      absent_append.mpr ⟨hloaded, absent_cons.mpr ⟨hname, absent_nil⟩⟩
    exact absent_texts.mpr ⟨hactive, hroot, hlonger⟩

theorem absent_chain (h : Absent c s.texts) : Absent c (s.chain content) := by
  obtain ⟨hactive, hroot, hloaded⟩ := absent_texts.mp h
  rw [chain, absent_cons, absent_append]
  refine ⟨hactive, hloaded, ?_⟩
  unfold ancestors
  split
  · exact absent_nil
  · next root hsome =>
    rw [hsome] at hroot
    split
    · exact absent_nil
    · exact hroot

end Scope

namespace Registry

variable {r : Registry}

/-! ### Steps of a registry -/

theorem absent_texts :
    Absent c r.texts ↔ Absent c r.scope.texts ∧ Absent c (r.collections.texts Collection.texts) :=
  absent_append

theorem absent_update {name : Text} {f : Collection → Collection} (hc : c.isAlphanum = false)
    (h : Absent c r.texts) (hname : c ∉ name)
    (hf : ∀ collection, Absent c collection.texts → Absent c (f collection).texts) :
    Absent c (r.update name f).texts := by
  obtain ⟨hscope, hcollections⟩ := absent_texts.mp h
  refine absent_texts.mpr ⟨hscope, Table.absent_alter hcollections hname ?_ ?_⟩
  · exact hf _ (Collection.absent_named hc hname)
  · exact hf

theorem absent_ensure {name : Text} (hc : c.isAlphanum = false) (h : Absent c r.texts)
    (hname : c ∉ name) : Absent c (r.ensure name).texts :=
  absent_update hc h hname fun _ hcollection => hcollection

theorem absent_activate {name : Text} (hc : c.isAlphanum = false) (h : Absent c r.texts)
    (hname : c ∉ name) : Absent c (r.activate name).texts := by
  obtain ⟨hscope, hcollections⟩ := absent_texts.mp (absent_ensure hc h hname)
  obtain ⟨-, hroot, -⟩ := Scope.absent_texts.mp hscope
  exact absent_texts.mpr ⟨Scope.absent_texts.mpr ⟨hname, hroot, absent_nil⟩, hcollections⟩

theorem absent_loadAll {names : List Text} (hc : c.isAlphanum = false) (h : Absent c r.texts)
    (hnames : Absent c names) : Absent c (r.loadAll names).texts := by
  induction names generalizing r with
  | nil => exact h
  | cons name rest ih =>
    rw [absent_cons] at hnames
    obtain ⟨hscope, hcollections⟩ := absent_texts.mp (absent_ensure hc h hnames.1)
    have hload : Absent c (r.load name).texts :=
      absent_texts.mpr ⟨Scope.absent_load hscope hnames.1, hcollections⟩
    exact ih hload hnames.2

theorem absent_take {step : Step} (hc : c.isAlphanum = false) (h : Absent c r.texts)
    (hstep : Absent c step.texts) : Absent c (r.take step).texts := by
  cases step with
  | collection name => exact absent_ensure hc h (absent_cons.mp hstep).1
  | activate name => exact absent_activate hc h (absent_cons.mp hstep).1
  | load names => exact absent_loadAll hc h hstep
  | write holder w =>
    obtain ⟨hholder, hw⟩ := absent_append.mp hstep
    refine absent_update hc h ?_ fun _ hcollection => Collection.absent_write hcollection hw
    cases holder with
    | none => exact (Scope.absent_texts.mp (absent_texts.mp h).1).1
    | some name => exact (absent_cons.mp hholder).1

theorem absent_foldl_take {steps : List Step} (hc : c.isAlphanum = false) (h : Absent c r.texts)
    (hsteps : ∀ step ∈ steps, Absent c step.texts) : Absent c (steps.foldl take r).texts := by
  induction steps generalizing r with
  | nil => exact h
  | cons step rest ih =>
    rw [List.forall_mem_cons] at hsteps
    exact ih (absent_take hc h hsteps.1) hsteps.2

theorem absent_start (hc : c.isAlphanum = false) : Absent c ({} : Registry).texts := by
  have hroot : c ∉ rootName := Text.not_mem_of_all_isAlphanum (by decide) hc
  have hnamed := Collection.absent_named hc hroot
  refine absent_texts.mpr ⟨Scope.absent_texts.mpr ⟨hroot, ?_, absent_nil⟩, ?_⟩
  · exact absent_cons.mpr ⟨hroot, absent_nil⟩
  · exact Table.absent_alter absent_nil hroot hnamed fun _ _ => hnamed

/-! ### Looking up -/

theorem absent_content {name : Text} (hc : c.isAlphanum = false) (h : Absent c r.texts)
    (hname : c ∉ name) : Absent c (r.content name).texts := by
  unfold content
  cases hget : r.collections.get? name with
  | none => exact Collection.absent_named hc hname
  | some collection => exact Table.absent_of_get? (absent_texts.mp h).2 hget

theorem absent_get? {name value : Text} (hc : c.isAlphanum = false) (h : Absent c r.texts)
    (hvalue : r.get? name = some value) : c ∉ value := by
  obtain ⟨hscope, hcollections⟩ := absent_texts.mp h
  have hchain : ∀ holder ∈ r.scope.chain r.content, Absent c (r.content holder).texts :=
    fun holder hholder => absent_content hc h (Scope.absent_chain hscope holder hholder)
  unfold get? at hvalue
  split at hvalue
  · obtain ⟨collection, hget, hresolved⟩ := Option.bind_eq_some_iff.mp hvalue
    have hcollection := Table.absent_of_get? hcollections hget
    rcases Option.or_eq_some_iff.mp hresolved with hexplicit | ⟨-, hdefault⟩
    · exact Collection.absent_explicit? hcollection hexplicit
    · exact Collection.absent_default? hcollection hdefault
  · rcases Option.or_eq_some_iff.mp hvalue with hexplicit | ⟨-, hdefault⟩
    · obtain ⟨holder, hholder, hfound⟩ := List.exists_of_findSome?_eq_some hexplicit
      exact Collection.absent_explicit? (hchain holder hholder) hfound
    · obtain ⟨holder, hholder, hfound⟩ := List.exists_of_findSome?_eq_some hdefault
      exact Collection.absent_default? (hchain holder hholder) hfound

end Registry

/-! ### The words of a statement -/

namespace Text

theorem mem_of_mem_splitOn {sep : Char} {t piece : Text} (hpiece : piece ∈ t.splitOn sep)
    (hmem : c ∈ piece) : c ∈ t := by
  have hended : c ∈ (t.splitOn sep).flatMap fun p => p ++ [sep] :=
    List.mem_flatMap.mpr ⟨piece, hpiece, List.mem_append_left _ hmem⟩
  rw [flatMap_splitOn] at hended
  rcases List.mem_append.mp hended with hin | hlast
  · exact hin
  · rw [List.mem_singleton.mp hlast] at hmem
    exact absurd hmem (not_mem_of_mem_splitOn hpiece)

theorem absent_splitOn {sep : Char} {t : Text} (h : c ∉ t) : Absent c (t.splitOn sep) :=
  fun _ hpiece hmem => h (mem_of_mem_splitOn hpiece hmem)

theorem absent_items {list : Text} (h : c ∉ list) : Absent c (items list) := by
  intro item hitem hmem
  obtain ⟨piece, hpiece, rfl⟩ := List.mem_map.mp (List.mem_of_mem_filter hitem)
  exact absent_splitOn h piece hpiece (mem_of_mem_strip hmem)

theorem not_mem_camelCase {t : Text} (hc : c.isAlphanum = false) (h : c ∉ t) :
    c ∉ camelCase t := by
  intro hmem
  rcases mem_camelCase hmem with hin | halnum
  · exact h hin
  · rw [hc] at halnum
    cases halnum

end Text

theorem absent_targetSelectors {target : Text} (hdot : c ≠ '.') (h : c ∉ target) :
    Absent c (targetSelectors target) := by
  unfold targetSelectors
  split
  · next name hquery =>
    refine absent_cons.mpr ⟨?_, absent_nil⟩
    unfold ClassQuery.ofToken? at hquery
    split at hquery
    · split at hquery
      · cases hquery
        rw [List.mem_cons, not_or]
        exact ⟨hdot, fun hmem => h (List.mem_cons_of_mem _ hmem)⟩
      · cases hquery
    · cases hquery
  · exact Text.absent_splitOn h

theorem Edit.absent_declare {active : Collection} {selector property value : Text}
    (hactive : c ∉ active.name) (hselector : c ∉ selector) (hproperty : c ∉ property)
    (hvalue : c ∉ value) : Absent c (declare active selector property value).texts := by
  unfold declare
  split
  · simpa [texts] using ⟨hactive, hselector, hproperty, hvalue⟩
  · simpa [texts] using ⟨hactive, hselector, hproperty, hvalue⟩
  · split
    · simpa [texts] using ⟨hselector, hvalue⟩
    · simpa [texts] using ⟨hselector, hproperty, hvalue⟩
  · simpa [texts] using ⟨hselector, hproperty, hvalue⟩
  · simpa [texts] using ⟨hselector, hproperty, hvalue⟩

theorem Registry.Step.Asked.absent {words : List Text} {step : Registry.Step}
    (h : step.Asked words) (hc : c.isAlphanum = false) (hwords : Absent c words) :
    Absent c step.texts := by
  cases h with
  | value _ hkey htext =>
    simpa [texts, Collection.Write.texts] using ⟨hwords _ hkey, hwords _ htext⟩
  | fallback hkey htext =>
    simpa [texts, Collection.Write.texts] using ⟨hwords _ hkey, hwords _ htext⟩
  | activate hname => simpa [texts] using hwords _ hname
  | load hnames => exact fun name hname => hwords name (hnames hname)
  | tag htext => simpa [texts, Collection.Write.texts] using hwords _ htext
  | untag =>
    have htag : c ∉ Route.tag .implicit := Text.not_mem_of_all_isAlphanum (by decide) hc
    simpa [texts, Collection.Write.texts] using htag

namespace Context

variable {context : Context}

theorem absent_evaluate {token value : Text} (hc : c.isAlphanum = false)
    (h : Absent c context.registry.texts) (htoken : c ∉ token)
    (hvalue : context.evaluate token = .ok value) : c ∉ value := by
  unfold evaluate at hvalue
  split at hvalue
  · cases hvalue
    exact htoken
  · next reference hreference =>
    split at hvalue
    · next found hfound =>
      cases hvalue
      rw [← Reference.token_of_ofToken? hreference] at htoken
      intro hmem
      rcases List.mem_append.mp hmem with hin | hin
      · exact Registry.absent_get? hc h hfound hin
      · exact htoken (List.mem_cons_of_mem _ (List.mem_append_right _ hin))
    · split at hvalue
      · cases hvalue
      · cases hvalue
        exact htoken

theorem absent_evaluateAll {tokens values : List Text} (hc : c.isAlphanum = false)
    (h : Absent c context.registry.texts) (htokens : Absent c tokens)
    (hvalues : context.evaluateAll tokens = .ok values) : Absent c values := by
  induction tokens generalizing values with
  | nil =>
    cases hvalues
    exact absent_nil
  | cons token rest ih =>
    obtain ⟨htoken, hrest⟩ := absent_cons.mp htokens
    unfold evaluateAll at hvalues
    split at hvalues
    · cases hvalues
    · next value hvalue =>
      split at hvalues
      · cases hvalues
      · next others hothers =>
        cases hvalues
        exact absent_cons.mpr ⟨absent_evaluate hc h htoken hvalue, ih hrest hothers⟩

theorem absent_steps {content : List Text} (hc : c.isAlphanum = false)
    (h : Absent c context.registry.texts) (hcontent : Absent c content) :
    ∀ step ∈ context.steps content, Absent c step.texts := by
  intro step hstep
  obtain ⟨query, words, hvalues, hasked⟩ := asked_of_mem_steps hstep
  exact hasked.absent hc (absent_cons.mp (absent_evaluateAll hc h hcontent hvalues)).2

theorem absent_edits {content : List Text} {plan : Plan} (hc : c.isAlphanum = false)
    (hdot : c ≠ '.') (h : Absent c context.registry.texts) (hcontent : Absent c content)
    (hplan : context.plan content = .ok plan) : ∀ edit ∈ plan.edits, Absent c edit.texts := by
  intro edit hedit
  obtain ⟨query, words, hvalues, hcases⟩ := mem_edits_of_plan hplan hedit
  obtain ⟨-, hwords⟩ := absent_cons.mp (absent_evaluateAll hc h hcontent hvalues)
  rcases hcases with ⟨list, hlist, pairs, hpairs, selector, hselector, declaration, hdeclaration,
    rfl⟩ | ⟨target, htarget, name, rfl⟩
  · obtain ⟨pair, hpair, hproperty⟩ := List.mem_flatMap.mp hdeclaration
    obtain ⟨property, hitem, rfl⟩ := List.mem_map.mp hproperty
    obtain ⟨hkey, hvalue⟩ := hpairs pair hpair
    have hscope := Scope.absent_texts.mp (Registry.absent_texts.mp h).1
    have hactive := Collection.absent_texts.mp (Registry.absent_content hc h hscope.1)
    refine Edit.absent_declare hactive.1 ?_ ?_ (hwords _ hvalue)
    · exact Text.absent_items (hwords _ hlist) selector hselector
    · exact Text.not_mem_camelCase hc (Text.absent_items (hwords _ hkey) property hitem)
  · exact absent_targetSelectors hdot (hwords _ htarget)

end Context

/-! ### Runs -/

theorem State.absent_texts {s : State} :
    Absent c s.texts ↔ Absent c s.context.registry.texts ∧ Absent c s.sheet.texts :=
  absent_append

theorem State.absent_interpret {file : Option Text} {s : State} {statement : Statement}
    (hc : c.isAlphanum = false) (hdot : c ≠ '.') (h : Absent c s.texts)
    (hcontent : Absent c statement.content) :
    Absent c (s.interpret file statement).state.texts := by
  obtain ⟨hregistry, hsheet⟩ := State.absent_texts.mp h
  refine State.absent_texts.mpr ⟨?_, ?_⟩
  · rw [State.registry_interpret]
    exact Registry.absent_foldl_take hc hregistry (Context.absent_steps hc hregistry hcontent)
  · rw [State.interpret_eq]
    cases hplan : s.context.plan statement.content with
    | error fault => exact hsheet
    | ok plan =>
      exact Sheet.absent_applyAll hsheet (Context.absent_edits hc hdot hregistry hcontent hplan)

/-- What stands in no token of a run stands nowhere in the states along it. -/
theorem Run.absent_statements {file : Option Text} {start : State} {statements : List Statement}
    (hc : c.isAlphanum = false) (hdot : c ≠ '.') (h : Absent c start.texts)
    (hcontents : ∀ statement ∈ statements, Absent c statement.content) :
    Absent c (Run.statements file start statements).state.texts := by
  induction statements generalizing start with
  | nil => exact h
  | cons statement rest ih =>
    rw [List.forall_mem_cons] at hcontents
    exact ih (State.absent_interpret hc hdot h hcontents.1) hcontents.2

theorem State.absent_start (hc : c.isAlphanum = false) (modes : Modes) :
    Absent c ({ context := { modes } } : State).texts :=
  State.absent_texts.mpr ⟨Registry.absent_start hc, absent_nil⟩

theorem Compilation.absent_interpret {statements : List Statement} (hc : c.isAlphanum = false)
    (hdot : c ≠ '.') (hcontents : ∀ statement ∈ statements, Absent c statement.content)
    (options : Options) : Absent c (interpret options statements).state.texts :=
  Run.absent_statements hc hdot (State.absent_start hc _) hcontents

theorem Compilation.absent_css {statements : List Statement} (hc : c.isAlphanum = false)
    (hdot : c ≠ '.') (hdash : c ≠ '-')
    (hcontents : ∀ statement ∈ statements, Absent c statement.content) (options : Options) :
    Absent c (interpret options statements).state.sheet.css.texts := by
  have htexts := State.absent_texts.mp (absent_interpret hc hdot hcontents options)
  exact Sheet.absent_css htexts.2 hdash (Text.isLower_of_isAlphanum hc)

/-! ### Sources -/

theorem Text.mem_of_mem_dropBefore {a b : Char} {t : Text} (h : c ∈ dropBefore a b t) :
    c ∈ t := by
  fun_induction dropBefore a b t with
  | case1 => exact h
  | case2 => exact h
  | case3 first second rest hpair ih =>
    rcases List.mem_cons.mp h with rfl | h
    · rw [hpair.2]
      exact List.mem_cons_of_mem _ List.mem_cons_self
    · exact List.mem_cons_of_mem _ (List.mem_cons_of_mem _ (ih h))
  | case4 first second rest _ ih =>
    rcases List.mem_cons.mp h with rfl | h
    · exact List.mem_cons_self
    · exact List.mem_cons_of_mem _ (ih h)

theorem Line.mem_of_derives {line : Text} {ts : List Text} (h : Derives line ts) :
    ∀ t ∈ ts, c ∈ t → c ∈ line := by
  induction h with
  | nil => simp
  | gap _ _ ih =>
    intro t ht hmem
    exact List.mem_cons_of_mem _ (ih t ht hmem)
  | comment rest => simp
  | literal _ _ ih =>
    intro t ht hmem
    rcases List.mem_cons.mp ht with rfl | ht
    · have hinside := Text.mem_of_mem_dropBefore (Text.mem_of_mem_dropBefore hmem)
      exact List.mem_cons_of_mem _ (List.mem_append_left _ hinside)
    · have hline := ih t ht hmem
      exact List.mem_cons_of_mem _ (List.mem_append_right _ (List.mem_cons_of_mem _ hline))
  | word _ _ _ _ _ ih =>
    intro t ht hmem
    rcases List.mem_cons.mp ht with rfl | ht
    · exact List.mem_append_left _ hmem
    · exact List.mem_append_right _ (ih t ht hmem)

namespace Source

theorem mem_of_standsFor {lines : List Text} {contents : List (List Text)}
    (h : StandsFor lines contents) {content : List Text} (hcontent : content ∈ contents)
    {token : Text} (htoken : token ∈ content) (hmem : c ∈ token) : ∃ line ∈ lines, c ∈ line := by
  induction h with
  | nil => cases hcontent
  | @cons line tokens lines contents hline _ ih =>
    rcases List.mem_cons.mp hcontent with rfl | hcontent
    · refine ⟨line, List.mem_cons_self, ?_⟩
      obtain ⟨ending, -, heq⟩ := Line.exists_body_append line
      rw [heq]
      exact List.mem_append_left _ (Line.mem_of_derives hline token htoken hmem)
    · obtain ⟨other, hother, hin⟩ := ih hcontent
      exact ⟨other, List.mem_cons_of_mem _ hother, hin⟩

theorem mem_of_mem_numbered {number : Nat} {contents : List (List Text)} {statement : Statement}
    (h : statement ∈ numbered number contents) : statement.content ∈ contents := by
  induction contents generalizing number with
  | nil => cases h
  | cons content rest ih =>
    rw [numbered] at h
    split at h
    · exact List.mem_cons_of_mem _ (ih h)
    · rcases List.mem_cons.mp h with rfl | h
      · exact List.mem_cons_self
      · exact List.mem_cons_of_mem _ (ih h)

/-- A token holds nothing that its source does not hold, and no newline. -/
theorem mem_of_read {source : Text} {statements : List Statement}
    (h : read source = .ok statements) {statement : Statement} (hstatement : statement ∈ statements)
    {token : Text} (htoken : token ∈ statement.content) (hmem : c ∈ token) :
    c ∈ source ∧ c ≠ '\n' := by
  have hfree : ∀ line ∈ lines source, '\n' ∉ line :=
    fun _ hline => Text.not_mem_of_mem_splitOn hline
  obtain ⟨contents, hcontents, rfl⟩ := (readLines_eq_ok_iff hfree).mp h
  obtain ⟨line, hline, hin⟩ :=
    mem_of_standsFor hcontents (mem_of_mem_numbered hstatement) htoken hmem
  refine ⟨Text.mem_of_mem_splitOn hline hin, ?_⟩
  rintro rfl
  exact hfree line hline hin

end Source

end

end Dyehouse
