import Mathlib.Control.Monad.Basic
import Dyehouse.Command.Report
import Dyehouse.Proofs.Sheet

/-!
# Sheets that are written as nothing

A sheet is empty if nothing has been put into it.  What is written may be empty all the same: a
font is only written if there is somewhere to load it from, and a font that has been described
and not been given a source, or been given an empty one, is kept in the sheet and left out.

That is the only difference.  A stylesheet is the empty text only if it shows nothing
(`Css.write_eq_nil_iff`), and in a sheet that statements lead to every style and every animation
has something to show (`Sheet.Filled`).
-/

namespace Dyehouse

/-! ### Stylesheets that are the empty text -/

theorem Text.dropBefore_eq_nil_iff {a b : Char} {t : Text} : dropBefore a b t = [] ↔ t = [] := by
  fun_cases dropBefore a b t <;> simp

namespace Css

/-- What is written for each of some things is empty only if there are none. -/
theorem flatMap_write_eq_nil_iff {α : Type} {write : α → Text} (h : ∀ x, write x ≠ [])
    {xs : List α} : xs.flatMap write = [] ↔ xs = [] := by
  rw [List.flatMap_eq_nil_iff, List.eq_nil_iff_forall_not_mem]
  exact forall₂_congr fun x _ => iff_false_intro (h x)

theorem braced_ne_nil (front body : Text) : front ++ braced body ≠ [] := by
  simp [braced]

theorem writeReducedMotion_eq_nil_iff {motions : List Keyframes} :
    writeReducedMotion motions = [] ↔ motions = [] := by
  cases motions with
  | nil => exact iff_of_true rfl rfl
  | cons first rest => exact iff_of_false (braced_ne_nil _ _) (List.cons_ne_nil _ _)

/-- Only a stylesheet that shows nothing is written as the empty text. -/
theorem write_eq_nil_iff {css : Css} :
    css.write = [] ↔ css.rules = [] ∧ css.keyframes = [] ∧ css.reducedMotion = [] ∧
      css.fontFaces = [] := by
  have hrule : ∀ b : Block, b.write ≠ [] := fun b => braced_ne_nil _ _
  have hkeyframes : ∀ k : Keyframes, k.write ≠ [] := fun k => braced_ne_nil _ _
  have hface : ∀ f : FontFace, f.write ≠ [] := fun f => braced_ne_nil _ _
  rw [write, List.append_eq_nil_iff, List.append_eq_nil_iff, List.append_eq_nil_iff,
    flatMap_write_eq_nil_iff hrule, flatMap_write_eq_nil_iff hkeyframes,
    writeReducedMotion_eq_nil_iff, flatMap_write_eq_nil_iff hface, and_assoc, and_assoc]

theorem writeTight_eq_nil_iff {css : Css} : css.writeTight = [] ↔ css.write = [] :=
  Text.dropBefore_eq_nil_iff

end Css

/-! ### Sheets that show nothing -/

/-- There is somewhere to load the font from. -/
def Font.HasSource (font : Font) : Prop :=
  ∃ source ∈ font.source, source ≠ []

instance (font : Font) : Decidable font.HasSource :=
  inferInstanceAs (Decidable (∃ source ∈ font.source, _))

theorem Font.face?_eq_none_iff {family : Text} {font : Font} :
    font.face? family = none ↔ ¬ font.HasSource := by
  obtain ⟨source, descriptors⟩ := font
  cases source with
  | none => simp [face?, HasSource]
  | some source => simp [face?, HasSource]

namespace Sheet

/-- Nothing is in the sheet but fonts that cannot be loaded. -/
structure ShowsNothing (sheet : Sheet) : Prop where
  styles : sheet.styles.isEmpty = true
  animations : sheet.animations.isEmpty = true
  motions : sheet.motions.isEmpty = true
  fonts : ∀ entry ∈ sheet.fonts.entries, ¬ entry.2.HasSource

theorem isEmpty_iff {sheet : Sheet} :
    sheet.isEmpty = true ↔
      sheet.ShowsNothing ∧ ∀ entry ∈ sheet.fonts.entries, entry.2.HasSource := by
  simp only [isEmpty, Bool.and_eq_true]
  constructor
  · rintro ⟨⟨⟨hstyles, hanimations⟩, hmotions⟩, hfonts⟩
    rw [Table.isEmpty_eq, List.isEmpty_iff] at hfonts
    exact ⟨⟨hstyles, hanimations, hmotions, by simp [hfonts]⟩, by simp [hfonts]⟩
  · rintro ⟨hnothing, hsources⟩
    refine ⟨⟨⟨hnothing.styles, hnothing.animations⟩, hnothing.motions⟩, ?_⟩
    rw [Table.isEmpty_eq, List.isEmpty_iff, List.eq_nil_iff_forall_not_mem]
    exact fun entry hentry => hnothing.fonts entry hentry (hsources entry hentry)

namespace Filled

variable {sheet : Sheet}

/-- No style of a filled sheet is left out. -/
theorem rules_eq_nil_iff (h : sheet.Filled) :
    sheet.css.rules = [] ↔ sheet.styles.isEmpty = true := by
  have hkept : ∀ entry ∈ sheet.styles.entries, (!entry.2.isEmpty) = true := by
    intro entry hentry
    have hproperties := (h.styles entry hentry).properties
    simpa [Table.isEmpty_eq] using hproperties
  rw [css, List.map_eq_nil_iff, List.filter_eq_self.mpr hkept, Table.isEmpty_eq, List.isEmpty_iff]

theorem write_css_eq_nil_iff (h : sheet.Filled) :
    sheet.css.write = [] ↔ sheet.ShowsNothing := by
  have hfaces : sheet.css.fontFaces = [] ↔ ∀ entry ∈ sheet.fonts.entries, ¬ entry.2.HasSource := by
    simp only [css, List.filterMap_eq_nil_iff, Font.face?_eq_none_iff]
  have hframes : ∀ table : Table Frames,
      table.entries.map (fun entry => Frames.keyframes entry.1 entry.2) = [] ↔
        table.isEmpty = true := by
    intro table
    rw [List.map_eq_nil_iff, Table.isEmpty_eq, List.isEmpty_iff]
  rw [Css.write_eq_nil_iff, h.rules_eq_nil_iff, hfaces]
  constructor
  · rintro ⟨hstyles, hanimations, hmotions, hfonts⟩
    exact ⟨hstyles, (hframes _).mp hanimations, (hframes _).mp hmotions, hfonts⟩
  · rintro ⟨hstyles, hanimations, hmotions, hfonts⟩
    exact ⟨hstyles, (hframes _).mpr hanimations, (hframes _).mpr hmotions, hfonts⟩

theorem render_eq_ok_nil_iff (h : sheet.Filled) (minify : Bool) :
    sheet.render minify = .ok [] ↔ sheet.ShowsNothing := by
  rw [Sheet.render, if_pos h.isDecided, Except.ok.injEq, ← h.write_css_eq_nil_iff]
  cases minify with
  | true => exact Css.writeTight_eq_nil_iff
  | false => exact Iff.rfl

end Filled

end Sheet

/-! ### The report of an inspection -/

namespace Command

theorem nothing_not_mem_collectionReport (c : Collection) :
    "Nothing to render.".toList ∉ collectionReport c := by
  simp [collectionReport]

theorem nothing_not_mem_animationReport (title : Text) (h : title ≠ "Nothing to render.".toList)
    (animations : Table Frames) :
    "Nothing to render.".toList ∉ animationReport title animations := by
  unfold animationReport
  split
  · exact List.not_mem_nil
  · simpa using h.symm

theorem nothing_not_mem_fontReport (fonts : Table Font) :
    "Nothing to render.".toList ∉ fontReport fonts := by
  unfold fontReport
  split
  · exact List.not_mem_nil
  · simp

theorem nothing_not_mem_logReport (log : Log) : "Nothing to render.".toList ∉ logReport log := by
  unfold logReport
  split
  · exact List.not_mem_nil
  · simp

theorem nothing_mem_selectorReport_iff (sheet : Sheet) :
    "Nothing to render.".toList ∈ selectorReport sheet ↔ sheet.isEmpty = true := by
  unfold selectorReport
  split
  · next h => simp [h]
  · next h => simp [h]

/-- No other line of a report reads like the one that says so if the sheet is empty. -/
theorem nothing_mem_inspectReport_iff (name : Text) (count : Nat) (run : Run) :
    "Nothing to render.".toList ∈ inspectReport name count run ↔
      run.state.sheet.isEmpty = true := by
  have hcollections : "Nothing to render.".toList ∉
      run.state.context.registry.collections.entries.flatMap fun entry =>
        collectionReport entry.2 := by
    rw [List.mem_flatMap]
    rintro ⟨entry, -, hline⟩
    exact nothing_not_mem_collectionReport entry.2 hline
  have hblank : "Nothing to render.".toList ∉ [[]] := by simp
  simp only [inspectReport, List.mem_append, hcollections, hblank, nothing_mem_selectorReport_iff,
    nothing_not_mem_animationReport "Animations:".toList (by decide),
    nothing_not_mem_animationReport "Motions:".toList (by decide),
    nothing_not_mem_fontReport, nothing_not_mem_logReport, or_false]
  simp

end Command

/-! ### Runs -/

namespace Run

/-- **When there is nothing to render.**  After any statements the sheet can be written down, plain
    or minified, and comes out as the empty text exactly if it holds nothing but fonts that cannot
    be loaded.  So it is empty exactly if it comes out as the empty text and each of its fonts can
    be loaded; and an inspection says that there is nothing to render exactly if it is empty. -/
theorem nothing_to_render_iff (file : Option Text) (modes : Modes) (statements : List Statement) :
    let run := Run.statements file { context := { modes } } statements
    let sheet := run.state.sheet
    (∀ minify, (∃ css, sheet.render minify = .ok css) ∧
      (sheet.render minify = .ok [] ↔ sheet.ShowsNothing) ∧
      (sheet.isEmpty = true ↔
        sheet.render minify = .ok [] ∧ ∀ entry ∈ sheet.fonts.entries, entry.2.HasSource)) ∧
    ∀ name count, "Nothing to render.".toList ∈ Command.inspectReport name count run ↔
      sheet.isEmpty = true := by
  intro run sheet
  have hfilled : sheet.Filled := Run.filled_statements file modes statements
  refine ⟨?_, fun name count => Command.nothing_mem_inspectReport_iff name count run⟩
  intro minify
  have hnothing := hfilled.render_eq_ok_nil_iff minify
  refine ⟨hfilled.render minify, hnothing, ?_⟩
  rw [hnothing]
  exact Sheet.isEmpty_iff

/-- A font that is described and never given a source is kept in the sheet and not written. -/
theorem font_without_source_not_written :
    let sheet := (Run.statements none { context := { modes := {} } }
      [{ content := ["#".toList, "faces".toList] },
       { content := ["!type".toList, "font".toList] },
       { content := ["$".toList, "Ghost".toList, "font-weight".toList, "400".toList] }]).state.sheet
    sheet.render false = .ok [] ∧ sheet.isEmpty = false := by
  decide +kernel

end Run

end Dyehouse
