import Dyehouse.Proofs.Run

/-!
# Other ways of keeping declarations

Of the sheet, a run of statements uses two things: what an edit makes of it, and which class
an edit asks for and does not find.  A `Keeping` is any type with these two, and statements
can be run over it as they are run over a sheet.  Run over sheets themselves, this is the run
that is carried out (`Sheet.statements_keeping`).

A map from one way of keeping declarations to another that goes along with the edits goes
along with whole runs (`Keeping.Hom.statements`): the two runs hear the same, and what the
one has kept in the end is the image of what the other has kept.
-/

namespace Dyehouse

/-- A way of keeping the declarations that edits make. -/
structure Keeping (σ : Type) where
  apply : σ → Edit → σ
  /-- The class that an edit asks for and that is not defined. -/
  lacks? : σ → Edit → Option Text

namespace Keeping

variable {σ τ : Type}

/-- What a run comes to: the context of the next statement, the declarations kept, and what
    was heard. -/
structure Outcome (σ : Type) where
  context : Context
  kept : σ
  events : List Event := []

def Outcome.map (f : σ → τ) (o : Outcome σ) : Outcome τ :=
  { context := o.context, kept := f o.kept, events := o.events }

/-! ### Running statements -/

section Runs

variable (k : Keeping σ) (file : Option Text)

def applyAll (kept : σ) (edits : List Edit) : σ :=
  edits.foldl k.apply kept

/-- The classes that edits made one after the other ask for and do not find. -/
def lacking (kept : σ) : List Edit → List Text
  | [] => []
  | edit :: rest => (k.lacks? kept edit).toList ++ lacking (k.apply kept edit) rest

/-- Run one statement of a file. -/
def interpret (context : Context) (kept : σ) (statement : Statement) : Outcome σ :=
  match context.plan statement.content with
  | .error fault => { context, kept, events := [fault.event file statement.index] }
  | .ok plan =>
    { context := plan.context
      kept := k.applyAll kept plan.edits
      events := (plan.remarks ++ (k.lacking kept plan.edits).map Remark.undefinedClass).map
        fun remark => remark.event file statement.index }

/-- Run statements one after the other. -/
def statements (context : Context) (kept : σ) : List Statement → Outcome σ
  | [] => { context, kept }
  | statement :: rest =>
    let step := k.interpret file context kept statement
    let later := statements step.context step.kept rest
    { later with events := step.events ++ later.events }

end Runs

/-! ### Maps that go along with the edits -/

/-- A map that goes along with every edit of declarations with a property that edits keep. -/
structure Hom (k : Keeping σ) (l : Keeping τ) (f : σ → τ) (P : σ → Prop) : Prop where
  keeps : ∀ {kept : σ}, P kept → ∀ edit, P (k.apply kept edit)
  map_apply : ∀ {kept : σ}, P kept → ∀ edit, f (k.apply kept edit) = l.apply (f kept) edit
  map_lacks? : ∀ {kept : σ}, P kept → ∀ edit, l.lacks? (f kept) edit = k.lacks? kept edit

namespace Hom

variable {k : Keeping σ} {l : Keeping τ} {f : σ → τ} {P : σ → Prop} {kept : σ}

theorem keeps_applyAll (h : Hom k l f P) (hkept : P kept) (edits : List Edit) :
    P (k.applyAll kept edits) := by
  induction edits generalizing kept with
  | nil => exact hkept
  | cons edit rest ih => exact ih (h.keeps hkept edit)

theorem map_applyAll (h : Hom k l f P) (hkept : P kept) (edits : List Edit) :
    l.applyAll (f kept) edits = f (k.applyAll kept edits) := by
  induction edits generalizing kept with
  | nil => rfl
  | cons edit rest ih =>
    have hlater := ih (h.keeps hkept edit)
    rw [h.map_apply hkept] at hlater
    exact hlater

theorem map_lacking (h : Hom k l f P) (hkept : P kept) (edits : List Edit) :
    l.lacking (f kept) edits = k.lacking kept edits := by
  induction edits generalizing kept with
  | nil => rfl
  | cons edit rest ih =>
    rw [lacking, lacking, h.map_lacks? hkept, ← h.map_apply hkept, ih (h.keeps hkept edit)]

theorem interpret (h : Hom k l f P) (hkept : P kept) (file : Option Text) (context : Context)
    (statement : Statement) :
    P (k.interpret file context kept statement).kept ∧
      l.interpret file context (f kept) statement =
        (k.interpret file context kept statement).map f := by
  unfold Keeping.interpret
  cases context.plan statement.content with
  | error fault => exact ⟨hkept, rfl⟩
  | ok plan =>
    refine ⟨h.keeps_applyAll hkept plan.edits, ?_⟩
    simp only [h.map_applyAll hkept, h.map_lacking hkept]
    rfl

/-- **The two runs go in step.** -/
theorem statements (h : Hom k l f P) (hkept : P kept) (file : Option Text) (context : Context)
    (statements : List Statement) :
    P (k.statements file context kept statements).kept ∧
      l.statements file context (f kept) statements =
        (k.statements file context kept statements).map f := by
  induction statements generalizing context kept with
  | nil => exact ⟨hkept, rfl⟩
  | cons statement rest ih =>
    obtain ⟨hstep, heq⟩ := h.interpret hkept file context statement
    obtain ⟨hlater, hrest⟩ := ih hstep (k.interpret file context kept statement).context
    refine ⟨hlater, ?_⟩
    rw [Keeping.statements, Keeping.statements, heq]
    simp only [Outcome.map] at hrest ⊢
    rw [hrest]

end Hom

end Keeping

/-! ### Sheets as a way of keeping declarations -/

namespace Sheet

def keeping : Keeping Sheet where
  apply := apply
  lacks? := lacks?

theorem lacking_keeping (sheet : Sheet) (edits : List Edit) :
    keeping.lacking sheet edits = sheet.lacking edits := by
  induction edits generalizing sheet with
  | nil => rfl
  | cons edit rest ih =>
    rw [Keeping.lacking, Sheet.lacking, ih]
    rfl

theorem interpret_keeping (file : Option Text) (s : State) (statement : Statement) :
    let run := s.interpret file statement
    keeping.interpret file s.context s.sheet statement =
      { context := run.state.context, kept := run.state.sheet, events := run.events } := by
  rw [State.interpret_eq, Keeping.interpret]
  cases s.context.plan statement.content with
  | error fault => rfl
  | ok plan =>
    simp only [lacking_keeping]
    rfl

/-- Statements run over sheets as a way of keeping declarations are statements run. -/
theorem statements_keeping (file : Option Text) (s : State) (statements : List Statement) :
    let run := Run.statements file s statements
    keeping.statements file s.context s.sheet statements =
      { context := run.state.context, kept := run.state.sheet, events := run.events } := by
  induction statements generalizing s with
  | nil => rfl
  | cons statement rest ih =>
    rw [Keeping.statements, interpret_keeping]
    simp only [ih, Run.statements]

end Sheet

end Dyehouse
