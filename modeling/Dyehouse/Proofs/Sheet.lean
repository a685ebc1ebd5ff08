import Dyehouse.Compilation
import Dyehouse.Proofs.Run
import Dyehouse.Proofs.Table

/-!
# Sheets are never half written

Writing a sheet down fails if some property of some style has no value to choose from.  No
compilation comes to that: every writer of a sheet puts a value down together with the
property, the selector or the frame that it is for.  `Sheet.Filled` says that nothing in a
sheet is empty, every edit keeps it, and so it holds after every run.
-/

namespace Dyehouse

/-! ### Styles and frames -/

/-- A style with at least one property, each with at least one value. -/
structure Style.Filled (style : Style) : Prop where
  properties : style.entries ≠ []
  values : ∀ property ∈ style.entries, property.2 ≠ #[]

/-- Frames of which there is at least one, each with at least one declaration. -/
structure Frames.Filled (frames : Frames) : Prop where
  labels : frames.entries ≠ []
  declarations : ∀ frame ∈ frames.entries, frame.2.entries ≠ []

/-- Giving a property a value fills a style, also one that was only just begun. -/
theorem Style.filled_add {style : Style}
    (h : ∀ property ∈ style.entries, property.2 ≠ #[]) (property value : Text) :
    (style.add property value).Filled where
  properties := Table.entries_alter_ne_nil _ _ _
  values := by
    refine Table.forall_mem_alter (P := fun values => values ≠ #[]) h ?_ ?_
    · exact Array.push_ne_empty
    · intro values _
      exact Array.push_ne_empty

theorem Frames.filled_set {frames : Frames}
    (h : ∀ frame ∈ frames.entries, frame.2.entries ≠ []) (label property value : Text) :
    (frames.set label property value).Filled where
  labels := Table.entries_alter_ne_nil _ _ _
  declarations := by
    refine Table.forall_mem_alter (P := fun frame : Table Text => frame.entries ≠ []) h ?_ ?_
    · exact Table.entries_alter_ne_nil _ _ _
    · intro frame _
      exact Table.entries_alter_ne_nil _ _ _

namespace Sheet

/-! ### The invariant and the writers -/

/-- Nothing in the sheet is empty. -/
structure Filled (sheet : Sheet) : Prop where
  styles : ∀ entry ∈ sheet.styles.entries, Style.Filled entry.2
  animations : ∀ entry ∈ sheet.animations.entries, Frames.Filled entry.2
  motions : ∀ entry ∈ sheet.motions.entries, Frames.Filled entry.2

theorem filled_start : Filled {} where
  styles := by simp
  animations := by simp
  motions := by simp

theorem filled_alter_set {table : Table Frames}
    (h : ∀ entry ∈ table.entries, Frames.Filled entry.2) (name label property value : Text) :
    ∀ entry ∈ (table.alter name fun frames =>
      Frames.set (frames.getD ∅) label property value).entries, Frames.Filled entry.2 := by
  refine Table.forall_mem_alter (P := Frames.Filled) h ?_ ?_
  · exact Frames.filled_set (by simp) label property value
  · intro frames hframes
    exact Frames.filled_set hframes.declarations label property value

namespace Filled

variable {sheet : Sheet}

theorem addValue (h : sheet.Filled) (selector property value : Text) :
    (sheet.addValue selector property value).Filled where
  styles := by
    refine Table.forall_mem_alter (P := Style.Filled) h.styles ?_ ?_
    · exact Style.filled_add (by simp) property value
    · intro style hstyle
      exact Style.filled_add hstyle.values property value
  animations := h.animations
  motions := h.motions

theorem addCandidates (h : sheet.Filled) (candidates : List Candidate) :
    (sheet.addCandidates candidates).Filled := by
  induction candidates generalizing sheet with
  | nil => exact h
  | cons candidate rest ih =>
    exact ih (h.addValue candidate.selector candidate.property candidate.value)

/-- Copying a class writes nothing but values, and nothing at all if there is no class. -/
theorem copyClass (h : sheet.Filled) (selectors : List Text) (name : Text) :
    ((sheet.applyClass? selectors name).getD sheet).Filled := by
  unfold applyClass?
  cases sheet.findClass? name with
  | none => exact h
  | some style => exact h.addCandidates _

theorem apply (h : sheet.Filled) (edit : Edit) : (sheet.apply edit).Filled := by
  cases edit with
  | style selector property value => exact h.addValue selector property value
  | keyframe animation label property value =>
    exact ⟨h.styles, filled_alter_set h.animations animation label property value, h.motions⟩
  | motion name label property value =>
    exact ⟨h.styles, h.animations, filled_alter_set h.motions name label property value⟩
  | fontSource family source => exact ⟨h.styles, h.animations, h.motions⟩
  | fontDescriptor family property value => exact ⟨h.styles, h.animations, h.motions⟩
  | copyClass selectors name => exact h.copyClass selectors name

theorem applyAll (h : sheet.Filled) (edits : List Edit) : (sheet.applyAll edits).Filled := by
  induction edits generalizing sheet with
  | nil => exact h
  | cons edit rest ih => exact ih (h.apply edit)

end Filled

end Sheet

theorem State.filled_interpret {file : Option Text} {s : State} {statement : Statement}
    (h : s.sheet.Filled) : (s.interpret file statement).state.sheet.Filled := by
  rw [State.interpret_eq]
  cases s.context.plan statement.content with
  | error fault => exact h
  | ok plan => exact h.applyAll plan.edits

theorem Run.filled_statements (file : Option Text) (modes : Modes) (statements : List Statement) :
    (Run.statements file { context := { modes } } statements).state.sheet.Filled :=
  Run.state_statements_induction (P := fun s => s.sheet.Filled) file
    (fun _ _ => State.filled_interpret) Sheet.filled_start statements

/-! ### Writing a filled sheet down -/

theorem dominant_eq_ok {values : List Text} (h : values ≠ []) :
    ∃ value, dominant values = .ok value := by
  have hlast : (dominant? values).isSome := by
    unfold dominant?
    rw [Option.isSome_or, List.getLast?_isSome.mpr h, Bool.or_true]
  obtain ⟨value, hvalue⟩ := Option.isSome_iff_exists.mp hlast
  refine ⟨value, ?_⟩
  rw [dominant, hvalue]

theorem Sheet.Filled.isDecided {sheet : Sheet} (h : sheet.Filled) : sheet.isDecided = true :=
  Sheet.isDecided_iff.mpr fun style hstyle => (h.styles style hstyle).values

theorem Sheet.Filled.render {sheet : Sheet} (h : sheet.Filled) (minify : Bool) :
    ∃ css, sheet.render minify = .ok css :=
  ⟨_, if_pos h.isDecided⟩

namespace Compilation

theorem ofStatements_of_render {options : Options} {statements : List Statement}
    {css : Text}
    (h : (interpret options statements).state.sheet.render options.minify = .ok css) :
    ofStatements options statements = .ok { css, run := interpret options statements } := by
  simp only [ofStatements, h]

theorem ofSource_of_render {options : Options} {source : Text} {statements : List Statement}
    {css : Text} (hread : Source.read source = .ok statements)
    (h : (interpret options statements).state.sheet.render options.minify = .ok css) :
    ofSource options source = .ok { css, run := interpret options statements } := by
  simp only [ofSource, hread, ofStatements_of_render h]

theorem ofStatements_eq_ok (options : Options) (statements : List Statement) :
    ∃ compilation, ofStatements options statements = .ok compilation := by
  have hfilled : (interpret options statements).state.sheet.Filled :=
    Run.filled_statements options.sourceName { strict := options.strict } statements
  obtain ⟨css, hcss⟩ := hfilled.render options.minify
  exact ⟨_, ofStatements_of_render hcss⟩

theorem ofSource_eq_error_iff (options : Options) (source : Text) (error : CompileError) :
    ofSource options source = .error error ↔
      ∃ cause, error = .unreadable cause ∧ Source.read source = .error cause := by
  unfold ofSource
  cases hread : Source.read source with
  | error cause =>
    constructor
    · intro herror
      cases herror
      exact ⟨cause, rfl, rfl⟩
    · rintro ⟨other, rfl, hother⟩
      cases hother
      rfl
  | ok statements =>
    obtain ⟨compilation, hcompilation⟩ := ofStatements_eq_ok options statements
    simp only [hcompilation]
    constructor
    · intro herror
      cases herror
    · rintro ⟨cause, _, hcause⟩
      cases hcause

/-- **Compiling statements always succeeds.**  After any statements nothing in the sheet is
    empty, so every property has a value that shows and the sheet can be written down either
    way; any statements compile; and a source fails to compile exactly if it cannot be read,
    with the complaint of the reader. -/
theorem compiles_whatever_reads :
    (∀ (file : Option Text) (modes : Modes) (statements : List Statement),
      let sheet := (Run.statements file { context := { modes } } statements).state.sheet
      (∀ style ∈ sheet.styles.entries, style.2.entries ≠ [] ∧
        ∀ property ∈ style.2.entries, property.2 ≠ #[] ∧
          ∃ value, dominant property.2.toList = .ok value) ∧
      (∀ frames ∈ sheet.animations.entries ++ sheet.motions.entries, frames.2.entries ≠ [] ∧
        ∀ frame ∈ frames.2.entries, frame.2.entries ≠ []) ∧
      ∀ minify, ∃ css, sheet.render minify = .ok css) ∧
    (∀ (options : Options) (statements : List Statement),
      ∃ compilation, ofStatements options statements = .ok compilation) ∧
    ∀ (options : Options) (source : Text) (error : CompileError),
      ofSource options source = .error error ↔
        ∃ cause, error = .unreadable cause ∧ Source.read source = .error cause := by
  refine ⟨?_, ofStatements_eq_ok, ofSource_eq_error_iff⟩
  intro file modes statements sheet
  have h : sheet.Filled := Run.filled_statements file modes statements
  refine ⟨?_, ?_, h.render⟩
  · intro style hstyle
    have hfilled := h.styles style hstyle
    refine ⟨hfilled.properties, ?_⟩
    intro property hproperty
    have hvalues := hfilled.values property hproperty
    exact ⟨hvalues, dominant_eq_ok fun hnil => hvalues (Array.toList_eq_nil_iff.mp hnil)⟩
  · intro frames hframes
    rcases List.mem_append.mp hframes with hanimation | hmotion
    · exact ⟨(h.animations frames hanimation).labels, (h.animations frames hanimation).declarations⟩
    · exact ⟨(h.motions frames hmotion).labels, (h.motions frames hmotion).declarations⟩

/-- A class copied onto another selector, and a frame of an animation. -/
theorem compiles_whatever_reads_copied :
    let statements : List Statement :=
      [{ content := ["$".toList, ".a".toList, "color".toList, "red".toList] },
       { content := ["$a".toList, ".b".toList] },
       { content := ["#".toList, "k".toList] },
       { content := ["!type".toList, "animation".toList] },
       { content := ["$".toList, "from".toList, "top".toList, "0".toList] }]
    let sheet := (Run.statements none { context := { modes := {} } } statements).state.sheet
    (∃ style ∈ sheet.styles.entries, style.1 = ".b".toList ∧ style.2.entries ≠ []) ∧
      (∃ frames ∈ sheet.animations.entries, frames.1 = "k".toList ∧ frames.2.entries ≠ []) ∧
      ∃ css, sheet.render true = .ok css := by
  intro statements sheet
  have hstyle : ∃ style ∈ sheet.styles.entries, style.1 = ".b".toList := by decide +kernel
  have hframes : ∃ frames ∈ sheet.animations.entries, frames.1 = "k".toList := by decide +kernel
  obtain ⟨hstyles, hanimations, hrender⟩ := compiles_whatever_reads.1 none {} statements
  obtain ⟨style, hmem, hname⟩ := hstyle
  obtain ⟨frames, hframesMem, hframesName⟩ := hframes
  refine ⟨⟨style, hmem, hname, (hstyles style hmem).1⟩, ⟨frames, hframesMem, hframesName, ?_⟩,
    hrender true⟩
  exact (hanimations frames (List.mem_append_left _ hframesMem)).1

end Compilation

end Dyehouse
