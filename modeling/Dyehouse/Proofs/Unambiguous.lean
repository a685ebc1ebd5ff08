import Dyehouse.Proofs.Spelling
import Dyehouse.Sheet.Css

/-!
# Stylesheets are unambiguous

A stylesheet is written without a mark of where its parts begin: rules, animations, the group of
animations with less motion and fonts follow each other directly.  Still the text determines
what was written, as long as the names and values in it have none of the characters that the
format itself is made of.

The proof follows the format.  A part *detaches* if it can be read off the front of any text,
whatever comes after it.  A list of parts that detach is determined together with what follows
it, if what follows cannot be taken for one more part (`Detaches.flatMap`).  Declarations,
blocks, animations and fonts detach, one after the other, and the stylesheet is four lists of
such parts.  When two sheets come to the same stylesheet is said by their tables alone
(`Sheet.css_eq_iff`).
-/

namespace Dyehouse

/-! ### Parts that can be read off the front of a text -/

/-- Texts that are cut at the first of the same separator are cut into the same pieces. -/
theorem Text.cut_inj {sep : Char} {a b r s : Text} (ha : sep ∉ a) (hb : sep ∉ b)
    (h : a ++ sep :: r = b ++ sep :: s) : a = b ∧ r = s := by
  induction a generalizing b with
  | nil =>
    cases b with
    | nil =>
      cases h
      exact ⟨rfl, rfl⟩
    | cons d others =>
      cases h
      exact absurd List.mem_cons_self hb
  | cons c rest ih =>
    cases b with
    | nil =>
      cases h
      exact absurd List.mem_cons_self ha
    | cons d others =>
      rw [List.cons_append, List.cons_append, List.cons.injEq] at h
      rw [List.mem_cons, not_or] at ha hb
      obtain ⟨rfl, hrest⟩ := h
      obtain ⟨rfl, hafter⟩ := ih ha.2 hb.2 hrest
      exact ⟨rfl, hafter⟩

/-- Things with the property `P` are written in such a way that they can be read off the front
    of any text. -/
def Detaches {α : Type} (P : α → Prop) (write : α → Text) : Prop :=
  ∀ ⦃x y : α⦄, P x → P y → ∀ ⦃r s : Text⦄, write x ++ r = write y ++ s → x = y ∧ r = s

namespace Detaches

variable {α : Type} {P : α → Prop} {write : α → Text}

/-- A list of parts is determined together with what follows it, if what follows does not look
    like one more part. -/
theorem flatMap (hw : Detaches P write) {E : Text → Prop}
    (hends : ∀ x r, P x → ¬ E (write x ++ r)) {xs ys : List α} (hxs : ∀ x ∈ xs, P x)
    (hys : ∀ y ∈ ys, P y) {r s : Text} (hr : E r) (hs : E s)
    (h : xs.flatMap write ++ r = ys.flatMap write ++ s) : xs = ys ∧ r = s := by
  induction xs generalizing ys with
  | nil =>
    cases ys with
    | nil => exact ⟨rfl, h⟩
    | cons y others =>
      rw [List.flatMap_cons, List.append_assoc] at h
      change r = _ at h
      exact absurd (h ▸ hr) (hends y _ (hys y List.mem_cons_self))
  | cons x rest ih =>
    cases ys with
    | nil =>
      rw [List.flatMap_cons, List.append_assoc] at h
      change _ = s at h
      exact absurd (h ▸ hs) (hends x _ (hxs x List.mem_cons_self))
    | cons y others =>
      rw [List.forall_mem_cons] at hxs hys
      rw [List.flatMap_cons, List.flatMap_cons, List.append_assoc, List.append_assoc] at h
      obtain ⟨rfl, hlater⟩ := hw hxs.1 hys.1 h
      obtain ⟨rfl, hafter⟩ := ih hxs.2 hys.2 hlater
      exact ⟨rfl, hafter⟩

/-- Parts between braces with a heading in front of them. -/
theorem braced (hw : Detaches P write)
    (hstart : ∀ x r, P x → (write x ++ r).head? ≠ some '\x7d') {a b : Text}
    (ha : '\x7b' ∉ a) (hb : '\x7b' ∉ b) {xs ys : List α} (hxs : ∀ x ∈ xs, P x)
    (hys : ∀ y ∈ ys, P y) {r s : Text}
    (h : a ++ Css.braced (xs.flatMap write) ++ r = b ++ Css.braced (ys.flatMap write) ++ s) :
    a = b ∧ xs = ys ∧ r = s := by
  simp only [Css.braced, List.append_assoc, List.cons_append, List.nil_append] at h
  obtain ⟨rfl, hbody⟩ := Text.cut_inj ha hb h
  obtain ⟨rfl, hclosed⟩ := hw.flatMap (E := fun t => t.head? = some '\x7d') hstart hxs hys
    rfl rfl hbody
  cases hclosed
  exact ⟨rfl, rfl, rfl⟩

end Detaches

/-! ### Texts without the characters of the format -/

/-- A text without a brace or a semicolon. -/
def Text.IsPlain (t : Text) : Prop :=
  ∀ c ∈ t, c ≠ '\x7b' ∧ c ≠ '\x7d' ∧ c ≠ ';'

instance (t : Text) : Decidable t.IsPlain :=
  List.decidableBAll (fun c => c ≠ '\x7b' ∧ c ≠ '\x7d' ∧ c ≠ ';') t

namespace Text.IsPlain

variable {t : Text}

theorem opening (h : t.IsPlain) : '\x7b' ∉ t := fun hmem => (h _ hmem).1 rfl

theorem closing (h : t.IsPlain) : '\x7d' ∉ t := fun hmem => (h _ hmem).2.1 rfl

theorem semicolon (h : t.IsPlain) : ';' ∉ t := fun hmem => (h _ hmem).2.2 rfl

theorem append {u : Text} (h : t.IsPlain) (hu : u.IsPlain) : IsPlain (t ++ u) := by
  intro c hc
  rcases List.mem_append.mp hc with ht | hmore
  · exact h c ht
  · exact hu c hmore

theorem kebabCase (h : t.IsPlain) : t.kebabCase.IsPlain := by
  intro c hc
  rcases mem_kebabCase hc with hmem | rfl | hlower
  · exact h c hmem
  · decide
  · refine ⟨?_, ?_, ?_⟩ <;> rintro rfl <;> cases hlower

end Text.IsPlain

/-- A text without a brace, a semicolon or a colon. -/
def Text.IsPlainProperty (t : Text) : Prop :=
  t.IsPlain ∧ ':' ∉ t

instance (t : Text) : Decidable t.IsPlainProperty :=
  instDecidableAnd

theorem Text.IsPlainProperty.kebabCase {t : Text} (h : t.IsPlainProperty) :
    t.kebabCase.IsPlainProperty := by
  refine ⟨h.1.kebabCase, ?_⟩
  intro hcolon
  rcases mem_kebabCase hcolon with hmem | hdash | hlower
  · exact h.2 hmem
  · cases hdash
  · cases hlower

namespace Css

structure Declaration.Clean (d : Declaration) : Prop where
  property : d.property.IsPlainProperty
  value : d.value.IsPlain

structure Block.Clean (b : Block) : Prop where
  head : b.head.IsPlain
  declarations : ∀ d ∈ b.declarations, d.Clean

/-- A rule does not start as the other parts of a stylesheet do. -/
structure Block.CleanRule (b : Block) : Prop extends Block.Clean b where
  start : b.head.head? ≠ some '@'

structure Keyframes.Clean (k : Keyframes) : Prop where
  name : k.name.IsPlain
  frames : ∀ b ∈ k.frames, b.Clean

structure FontFace.Clean (f : FontFace) : Prop where
  family : f.family.IsPlain
  source : f.source.IsPlain
  descriptors : ∀ d ∈ f.descriptors, d.Clean

/-! ### Declarations, blocks and animations -/

theorem Declaration.detaches : Detaches Declaration.Clean Declaration.write := by
  intro d e hd he r s h
  simp only [write, pair, List.append_assoc, List.cons_append, List.nil_append] at h
  obtain ⟨hproperty, hafter⟩ := Text.cut_inj hd.property.2 he.property.2 h
  obtain ⟨hvalue, hrest⟩ := Text.cut_inj hd.value.semicolon he.value.semicolon hafter
  obtain ⟨property, value⟩ := d
  cases hproperty
  cases hvalue
  exact ⟨rfl, hrest⟩

theorem Declaration.head?_write {d : Declaration} (h : d.Clean) (r : Text) :
    (d.write ++ r).head? ≠ some '\x7d' := by
  obtain ⟨property, value⟩ := d
  cases property with
  | nil => simp [write, pair]
  | cons c rest =>
    have hc := h.property.1 c List.mem_cons_self
    simp [write, pair, hc.2.1]

theorem Block.detaches : Detaches Block.Clean Block.write := by
  intro a b ha hb r s h
  obtain ⟨hhead, hdeclarations, hrest⟩ := Declaration.detaches.braced
    (fun _ r hd => Declaration.head?_write hd r) ha.head.opening hb.head.opening
    ha.declarations hb.declarations h
  obtain ⟨head, declarations⟩ := a
  cases hhead
  cases hdeclarations
  exact ⟨rfl, hrest⟩

/-- A block starts with its head, and with a brace if the head is empty. -/
theorem Block.head?_write (b : Block) (r : Text) :
    (b.write ++ r).head? = some (b.head.headD '\x7b') := by
  obtain ⟨head, declarations⟩ := b
  cases head <;> rfl

theorem Block.detaches_rule : Detaches Block.CleanRule Block.write := by
  intro a b ha hb r s h
  exact Block.detaches ha.toClean hb.toClean h

theorem Block.CleanRule.head?_write {b : Block} (h : b.CleanRule) (r : Text) :
    ¬ ∀ c ∈ (b.write ++ r).head?, c = '@' := by
  intro hat
  have hfirst := hat _ (Block.head?_write b r)
  have hstart := h.start
  cases hhead : b.head with
  | nil =>
    rw [hhead] at hfirst
    cases hfirst
  | cons c rest =>
    rw [hhead] at hfirst hstart
    exact hstart (congrArg some hfirst)

theorem Block.head?_write_ne {b : Block} (h : b.Clean) (r : Text) :
    (b.write ++ r).head? ≠ some '\x7d' := by
  rw [head?_write]
  obtain ⟨head, declarations⟩ := b
  cases head with
  | nil => simp
  | cons c rest =>
    have hc := h.head c List.mem_cons_self
    simp [hc.2.1]

theorem Keyframes.detaches : Detaches Keyframes.Clean Keyframes.write := by
  intro a b ha hb r s h
  have hplain : Text.IsPlain "@keyframes ".toList := by decide
  obtain ⟨hname, hframes, hrest⟩ := Block.detaches.braced
    (fun _ r hb => Block.head?_write_ne hb r) (hplain.append ha.name).opening
    (hplain.append hb.name).opening ha.frames hb.frames h
  obtain ⟨name, frames⟩ := a
  cases List.append_cancel_left hname
  cases hframes
  exact ⟨rfl, hrest⟩

/-! ### Fonts -/

theorem intercalate_append_sep (sep : Char) (first : Text) (rest : List Text) :
    [sep].intercalate (first :: rest) ++ [sep] = (first :: rest).flatMap (· ++ [sep]) := by
  induction rest generalizing first with
  | nil => simp
  | cons second others ih =>
    rw [List.flatMap_cons, ← ih second]
    simp [List.intercalate]

/-- The parts of a font, which semicolons stand between. -/
def FontFace.parts (f : FontFace) : List Text :=
  ("font-family:".toList ++ f.family) :: ("src:url(".toList ++ f.source ++ [')']) ::
    f.descriptors.map Declaration.pair

theorem Declaration.Clean.pair {d : Declaration} (h : d.Clean) : d.pair.IsPlain := by
  intro c hc
  rcases List.mem_append.mp hc with hproperty | hafter
  · exact h.property.1 c hproperty
  · rcases List.mem_cons.mp hafter with rfl | hvalue
    · decide
    · exact h.value c hvalue

theorem FontFace.Clean.parts {f : FontFace} (h : f.Clean) : ∀ part ∈ f.parts, part.IsPlain := by
  have hfamily : Text.IsPlain "font-family:".toList := by decide
  have hsource : Text.IsPlain "src:url(".toList := by decide
  have hclose : Text.IsPlain [')'] := by decide
  intro part hpart
  rcases List.mem_cons.mp hpart with rfl | hpart
  · exact hfamily.append h.family
  · rcases List.mem_cons.mp hpart with rfl | hpart
    · exact (hsource.append h.source).append hclose
    · obtain ⟨d, hd, rfl⟩ := List.mem_map.mp hpart
      exact (h.descriptors d hd).pair

theorem detaches_ended (sep : Char) : Detaches (fun t : Text => sep ∉ t) (· ++ [sep]) := by
  intro a b ha hb r s h
  simp only [List.append_assoc, List.cons_append, List.nil_append] at h
  exact Text.cut_inj ha hb h

/-- Parts with separators between them are determined by the text. -/
theorem parts_inj {a b : FontFace} (ha : a.Clean) (hb : b.Clean)
    (h : [';'].intercalate a.parts = [';'].intercalate b.parts) : a.parts = b.parts := by
  have hended : a.parts.flatMap (· ++ [';']) ++ [] = b.parts.flatMap (· ++ [';']) ++ [] := by
    rw [List.append_nil, List.append_nil, FontFace.parts, FontFace.parts,
      ← intercalate_append_sep, ← intercalate_append_sep]
    exact congrArg (· ++ [';']) h
  exact ((detaches_ended ';').flatMap (E := fun t => t = []) (by simp)
    (fun part hpart => (ha.parts part hpart).semicolon)
    (fun part hpart => (hb.parts part hpart).semicolon) rfl rfl hended).1

theorem FontFace.eq_of_parts {a b : FontFace} (ha : a.Clean) (hb : b.Clean)
    (h : a.parts = b.parts) : a = b := by
  obtain ⟨family, source, descriptors⟩ := a
  obtain ⟨family', source', descriptors'⟩ := b
  simp only [parts, List.cons.injEq] at h
  obtain ⟨hfamily, hsource, hpairs⟩ := h
  cases List.append_cancel_left hfamily
  cases List.append_cancel_left (List.append_cancel_right hsource)
  -- ended by semicolons, the pairs are declarations as they are written in a block
  have hwritten : descriptors.flatMap Declaration.write ++ [] =
      descriptors'.flatMap Declaration.write ++ [] := by
    have hmap := congrArg (fun pairs : List Text => pairs.flatMap (· ++ [';'])) hpairs
    simp only [List.flatMap_map] at hmap
    exact congrArg (· ++ []) hmap
  obtain ⟨rfl, -⟩ := Declaration.detaches.flatMap (E := fun t => t = [])
    (by simp [Declaration.write]) ha.descriptors hb.descriptors rfl rfl hwritten
  rfl

theorem FontFace.detaches : Detaches FontFace.Clean FontFace.write := by
  intro a b ha hb r s h
  have hclosing : ∀ f : FontFace, f.Clean → '\x7d' ∉ [';'].intercalate f.parts := by
    intro f hf hmem
    have hended := List.mem_append_left [';'] hmem
    rw [parts, intercalate_append_sep] at hended
    obtain ⟨part, hpart, hin⟩ := List.mem_flatMap.mp hended
    rcases List.mem_append.mp hin with hinside | hsep
    · exact (hf.parts part hpart).closing hinside
    · cases List.mem_singleton.mp hsep
  change "@font-face".toList ++ braced ([';'].intercalate a.parts) ++ r =
    "@font-face".toList ++ braced ([';'].intercalate b.parts) ++ s at h
  simp only [braced, List.append_assoc, List.cons_append, List.nil_append] at h
  have hbody := List.append_cancel_left h
  rw [List.cons.injEq] at hbody
  obtain ⟨hparts, hrest⟩ := Text.cut_inj (hclosing a ha) (hclosing b hb) hbody.2
  exact ⟨eq_of_parts ha hb (parts_inj ha hb hparts), hrest⟩

/-! ### Whole stylesheets -/

/-- A stylesheet whose names and values have none of the characters of the format. -/
structure Clean (css : Css) : Prop where
  rules : ∀ b ∈ css.rules, b.CleanRule
  keyframes : ∀ k ∈ css.keyframes, k.Clean
  reducedMotion : ∀ k ∈ css.reducedMotion, k.Clean
  fontFaces : ∀ f ∈ css.fontFaces, f.Clean

theorem take_two_fontFaces (faces : List FontFace) :
    (faces.flatMap FontFace.write).take 2 = [] ∨
      (faces.flatMap FontFace.write).take 2 = ['@', 'f'] := by
  cases faces with
  | nil => exact Or.inl rfl
  | cons face rest => exact Or.inr rfl

/-- What comes after the animations: the group of animations with less motion, a font, or
    nothing. -/
theorem take_two_reducedMotion (motions : List Keyframes) (faces : List FontFace) :
    (writeReducedMotion motions ++ faces.flatMap FontFace.write).take 2 = [] ∨
      (writeReducedMotion motions ++ faces.flatMap FontFace.write).take 2 = ['@', 'm'] ∨
      (writeReducedMotion motions ++ faces.flatMap FontFace.write).take 2 = ['@', 'f'] := by
  cases motions with
  | nil =>
    rcases take_two_fontFaces faces with hnone | hface
    · exact Or.inl hnone
    · exact Or.inr (Or.inr hface)
  | cons motion rest => exact Or.inr (Or.inl rfl)

/-- What comes after the rules starts with an at sign, if there is anything. -/
theorem head?_after_rules (animations motions : List Keyframes) (faces : List FontFace) :
    ∀ c ∈ (animations.flatMap Keyframes.write ++
      (writeReducedMotion motions ++ faces.flatMap FontFace.write)).head?, c = '@' := by
  intro c hc
  cases animations with
  | cons k rest =>
    cases hc
    rfl
  | nil =>
    have hstart := take_two_reducedMotion motions faces
    rw [List.flatMap_nil, List.nil_append] at hc
    obtain ⟨rest, hrest⟩ := List.head?_eq_some_iff.mp hc
    rw [hrest] at hstart
    rcases hstart with hnone | hmotion | hface
    · cases hnone
    · exact (List.cons.inj hmotion).1
    · exact (List.cons.inj hface).1

theorem reducedMotion_inj {motions motions' : List Keyframes} {faces faces' : List FontFace}
    (h : ∀ k ∈ motions, k.Clean) (h' : ∀ k ∈ motions', k.Clean)
    (hwritten : writeReducedMotion motions ++ faces.flatMap FontFace.write =
      writeReducedMotion motions' ++ faces'.flatMap FontFace.write) :
    motions = motions' ∧ faces.flatMap FontFace.write = faces'.flatMap FontFace.write := by
  -- a text of fonts alone is not taken for one that starts with the group
  have hgroup : ∀ (k : Keyframes) (rest : List Keyframes) (r : Text) (fonts : List FontFace),
      writeReducedMotion (k :: rest) ++ r ≠ fonts.flatMap FontFace.write := by
    intro k rest r fonts heq
    have hstart := take_two_fontFaces fonts
    rw [← heq] at hstart
    rcases hstart with hnone | hface
    · cases hnone
    · cases hface
  cases motions with
  | nil =>
    cases motions' with
    | nil => exact ⟨rfl, hwritten⟩
    | cons k rest => exact absurd hwritten.symm (hgroup k rest _ faces)
  | cons k rest =>
    cases motions' with
    | nil => exact absurd hwritten (hgroup k rest _ faces')
    | cons k' rest' =>
      have hplain : '\x7b' ∉ "@media (prefers-reduced-motion)".toList := by decide
      obtain ⟨-, hmotions, hfaces⟩ := Keyframes.detaches.braced
        (fun _ _ _ hclosing => by cases hclosing) hplain hplain h h' hwritten
      exact ⟨hmotions, hfaces⟩

/-- **The text of a stylesheet determines what was written.** -/
theorem write_inj {a b : Css} (ha : a.Clean) (hb : b.Clean) (h : a.write = b.write) : a = b := by
  obtain ⟨rules, animations, motions, faces⟩ := a
  obtain ⟨rules', animations', motions', faces'⟩ := b
  simp only [write, List.append_assoc] at h
  -- the rules go on until an at sign or the end
  obtain ⟨rfl, hafterRules⟩ := Block.detaches_rule.flatMap
    (E := fun t => ∀ c ∈ t.head?, c = '@') (fun _ r hrule => hrule.head?_write r)
    ha.rules hb.rules (head?_after_rules animations motions faces)
    (head?_after_rules animations' motions' faces') h
  -- the animations go on until something else starts
  have hother : ∀ (motions : List Keyframes) (faces : List FontFace),
      (writeReducedMotion motions ++ faces.flatMap FontFace.write).take 2 ≠ ['@', 'k'] := by
    intro motions faces hk
    have hstart := take_two_reducedMotion motions faces
    rw [hk] at hstart
    rcases hstart with hnone | hmotion | hface
    · cases hnone
    · cases hmotion
    · cases hface
  obtain ⟨rfl, hafterAnimations⟩ := Keyframes.detaches.flatMap
    (E := fun t => t.take 2 ≠ ['@', 'k']) (fun _ _ _ hnot => hnot rfl)
    ha.keyframes hb.keyframes (hother motions faces) (hother motions' faces') hafterRules
  obtain ⟨rfl, hfaces⟩ := reducedMotion_inj ha.reducedMotion hb.reducedMotion hafterAnimations
  obtain ⟨rfl, -⟩ := FontFace.detaches.flatMap (E := fun t => t = [])
    (fun _ _ _ hnil => by cases hnil) ha.fontFaces hb.fontFaces rfl rfl
    (congrArg (· ++ []) hfaces)
  rfl

end Css

/-! ### Sheets -/

/-- Properties and values that can be written as declarations. -/
def Table.IsClean (t : Table Text) : Prop :=
  ∀ entry ∈ t.entries, entry.1.IsPlainProperty ∧ entry.2.IsPlain

instance (t : Table Text) : Decidable t.IsClean :=
  inferInstanceAs (Decidable (∀ entry ∈ t.entries, _))

/-- An animation that can be written down, with its name and its frames. -/
def Frames.IsClean (name : Text) (frames : Frames) : Prop :=
  name.IsPlain ∧ ∀ frame ∈ frames.entries, frame.1.IsPlain ∧ frame.2.IsClean

instance (name : Text) (frames : Frames) : Decidable (Frames.IsClean name frames) :=
  instDecidableAnd

/-- A sheet in which every property of a style has a value to choose from, and whose names and
    values have none of the characters that a stylesheet is made of. -/
structure Sheet.Clean (sheet : Sheet) : Prop where
  selectors : ∀ style ∈ sheet.styles.entries, style.1.IsPlain ∧ style.1.head? ≠ some '@'
  properties : ∀ style ∈ sheet.styles.entries, ∀ property ∈ style.2.entries,
    property.1.IsPlainProperty
  candidates : ∀ style ∈ sheet.styles.entries, ∀ property ∈ style.2.entries,
    property.2 ≠ #[] ∧ ∀ value ∈ property.2.toList, value.IsPlain
  animations : ∀ entry ∈ sheet.animations.entries, Frames.IsClean entry.1 entry.2
  motions : ∀ entry ∈ sheet.motions.entries, Frames.IsClean entry.1 entry.2
  families : ∀ font ∈ sheet.fonts.entries, font.1.IsPlain
  sources : ∀ font ∈ sheet.fonts.entries, ∀ source ∈ font.2.source, source.IsPlain
  descriptors : ∀ font ∈ sheet.fonts.entries, font.2.descriptors.IsClean

theorem mem_of_dominant? {values : List Text} {value : Text} (h : dominant? values = some value) :
    value ∈ values := by
  rcases Option.or_eq_some_iff.mp h with hinsists | ⟨-, hlast⟩
  · exact List.mem_of_mem_filter (List.mem_of_getLast? hinsists)
  · exact List.mem_of_getLast? hlast

theorem Table.IsClean.declarations {t : Table Text} (h : t.IsClean) :
    ∀ d ∈ t.entries.map declarationOf, d.Clean := by
  intro d hd
  obtain ⟨entry, hentry, rfl⟩ := List.mem_map.mp hd
  exact ⟨(h entry hentry).1.kebabCase, (h entry hentry).2⟩

theorem Frames.IsClean.keyframes {name : Text} {frames : Frames} (h : Frames.IsClean name frames) :
    (frames.keyframes name).Clean := by
  refine ⟨h.1, ?_⟩
  intro block hblock
  obtain ⟨frame, hframe, rfl⟩ := List.mem_map.mp hblock
  obtain ⟨hlabel, hdeclarations⟩ := h.2 frame hframe
  exact ⟨hlabel, hdeclarations.declarations⟩

namespace Sheet.Clean

variable {sheet : Sheet}

theorem block (h : sheet.Clean) {style : Text × Style} (hstyle : style ∈ sheet.styles.entries) :
    (style.2.block style.1).CleanRule := by
  obtain ⟨hplain, hstart⟩ := h.selectors style hstyle
  refine ⟨⟨hplain, ?_⟩, hstart⟩
  intro d hd
  obtain ⟨entry, hentry, rfl⟩ := List.mem_map.mp hd
  refine ⟨(h.properties style hstyle entry hentry).kebabCase, ?_⟩
  change ((dominant? entry.2.toList).getD []).IsPlain
  cases hvalue : dominant? entry.2.toList with
  | none => exact fun c hc => by cases hc
  | some value => exact (h.candidates style hstyle entry hentry).2 value (mem_of_dominant? hvalue)

theorem face (h : sheet.Clean) {font : Text × Font} (hfont : font ∈ sheet.fonts.entries)
    {face : Css.FontFace} (hface : font.2.face? font.1 = some face) : face.Clean := by
  unfold Font.face? at hface
  split at hface
  · cases hface
  · next source hsource =>
    split at hface
    · cases hface
    · cases hface
      exact ⟨h.families font hfont, h.sources font hfont source hsource,
        (h.descriptors font hfont).declarations⟩

theorem css (h : sheet.Clean) : sheet.css.Clean where
  rules := by
    intro block hblock
    obtain ⟨style, hstyle, rfl⟩ := List.mem_map.mp hblock
    exact h.block (List.mem_of_mem_filter hstyle)
  keyframes := by
    intro k hk
    obtain ⟨entry, hentry, rfl⟩ := List.mem_map.mp hk
    exact (h.animations entry hentry).keyframes
  reducedMotion := by
    intro k hk
    obtain ⟨entry, hentry, rfl⟩ := List.mem_map.mp hk
    exact (h.motions entry hentry).keyframes
  fontFaces := by
    intro f hf
    obtain ⟨font, hfont, hface⟩ := List.mem_filterMap.mp hf
    exact h.face hfont hface

theorem render_eq (h : sheet.Clean) : sheet.render false = .ok sheet.css.write := by
  have hdecided : sheet.isDecided = true :=
    isDecided_iff.mpr fun style hstyle property hproperty =>
      (h.candidates style hstyle property hproperty).1
  rw [render, if_pos hdecided]
  rfl

end Sheet.Clean

/-! ### What a sheet shows, by its tables -/

/-- The entries of a table with their names in the spelling with dashes. -/
def Table.dashed (t : Table Text) : List (Text × Text) :=
  t.entries.map fun entry => (Text.kebabCase entry.1, entry.2)

/-- The selectors that have a property, each with its properties in the spelling with dashes and
    the values that win. -/
def Sheet.shownStyles (sheet : Sheet) : List (Text × List (Text × Text)) :=
  (sheet.styles.entries.filter fun style => style.2.entries ≠ []).map fun style =>
    (style.1, style.2.entries.map fun property =>
      (Text.kebabCase property.1, (dominant? property.2.toList).getD []))

/-- Animations, each with its frames, and these with what is set in them. -/
def Table.shownFrames (animations : Table Frames) :
    List (Text × List (Text × List (Text × Text))) :=
  animations.entries.map fun animation =>
    (animation.1, animation.2.entries.map fun frame => (frame.1, frame.2.dashed))

/-- The families that have somewhere to be loaded from, each with that place and its
    descriptors. -/
def Sheet.shownFonts (sheet : Sheet) : List (Text × Text × List (Text × Text)) :=
  (sheet.fonts.entries.filter fun font => font.2.source.getD [] ≠ []).map fun font =>
    (font.1, font.2.source.getD [], font.2.descriptors.dashed)

namespace Css

def Declaration.ofPair (pair : Text × Text) : Declaration :=
  { property := pair.1, value := pair.2 }

def Block.ofPairs (block : Text × List (Text × Text)) : Block :=
  { head := block.1, declarations := block.2.map Declaration.ofPair }

def Keyframes.ofPairs (animation : Text × List (Text × List (Text × Text))) : Keyframes :=
  { name := animation.1, frames := animation.2.map Block.ofPairs }

def FontFace.ofPairs (font : Text × Text × List (Text × Text)) : FontFace :=
  { family := font.1, source := font.2.1, descriptors := font.2.2.map Declaration.ofPair }

theorem Declaration.ofPair_injective : Function.Injective Declaration.ofPair := by
  intro a b h
  rw [ofPair, ofPair, Declaration.mk.injEq] at h
  exact Prod.ext h.1 h.2

theorem Block.ofPairs_injective : Function.Injective Block.ofPairs := by
  intro a b h
  rw [ofPairs, ofPairs, Block.mk.injEq] at h
  exact Prod.ext h.1 (List.map_injective_iff.mpr Declaration.ofPair_injective h.2)

theorem Keyframes.ofPairs_injective : Function.Injective Keyframes.ofPairs := by
  intro a b h
  rw [ofPairs, ofPairs, Keyframes.mk.injEq] at h
  exact Prod.ext h.1 (List.map_injective_iff.mpr Block.ofPairs_injective h.2)

theorem FontFace.ofPairs_injective : Function.Injective FontFace.ofPairs := by
  intro a b h
  rw [ofPairs, ofPairs, FontFace.mk.injEq] at h
  refine Prod.ext h.1 (Prod.ext h.2.1 ?_)
  exact List.map_injective_iff.mpr Declaration.ofPair_injective h.2.2

end Css

theorem Table.map_declarationOf (t : Table Text) :
    t.entries.map declarationOf = t.dashed.map Css.Declaration.ofPair := by
  rw [dashed, List.map_map]
  rfl

theorem Table.map_keyframes (animations : Table Frames) :
    (animations.entries.map fun entry => Frames.keyframes entry.1 entry.2) =
      animations.shownFrames.map Css.Keyframes.ofPairs := by
  rw [shownFrames, List.map_map]
  refine List.map_congr_left ?_
  intro animation _
  simp only [Frames.keyframes, Table.map_declarationOf, Function.comp_apply,
    Css.Keyframes.ofPairs, List.map_map]
  rfl

theorem Font.face?_eq (family : Text) (font : Font) :
    font.face? family =
      if font.source.getD [] ≠ [] then
        some (Css.FontFace.ofPairs (family, font.source.getD [], font.descriptors.dashed))
      else none := by
  obtain ⟨source, descriptors⟩ := font
  rcases source with _ | ⟨_ | ⟨c, others⟩⟩
  · rfl
  · rfl
  · simp [face?, Table.map_declarationOf, Css.FontFace.ofPairs]

namespace Sheet

theorem rules_eq (sheet : Sheet) : sheet.css.rules = sheet.shownStyles.map Css.Block.ofPairs := by
  have hfilter : (sheet.styles.entries.filter fun entry => !entry.2.isEmpty) =
      sheet.styles.entries.filter fun style => style.2.entries ≠ [] := by
    refine List.filter_congr ?_
    intro style _
    rw [Table.isEmpty_eq]
    cases style.2.entries <;> simp
  rw [css, hfilter, shownStyles, List.map_map]
  refine List.map_congr_left ?_
  intro style _
  simp only [Style.block, Function.comp_apply, Css.Block.ofPairs, List.map_map]
  rfl

theorem fontFaces_eq (sheet : Sheet) :
    sheet.css.fontFaces = sheet.shownFonts.map Css.FontFace.ofPairs := by
  simp only [css, shownFonts, List.map_map]
  induction sheet.fonts.entries with
  | nil => rfl
  | cons font rest ih =>
    have hface := Font.face?_eq font.1 font.2
    by_cases hsource : font.2.source.getD [] ≠ []
    · rw [if_pos hsource] at hface
      rw [List.filterMap_cons, List.filter_cons_of_pos (by simpa using hsource), ih]
      simp only [hface]
      rfl
    · rw [if_neg hsource] at hface
      rw [List.filterMap_cons, List.filter_cons_of_neg (by simpa using hsource), ih]
      simp only [hface]

/-- Two sheets show the same exactly if their tables come to the same: the selectors that have a
    property, with the properties and the values that win; the animations and the animations with
    less motion, frame by frame; and the fonts that have a source, with their descriptors. -/
theorem css_eq_iff {left right : Sheet} :
    left.css = right.css ↔
      left.shownStyles = right.shownStyles ∧
      left.animations.shownFrames = right.animations.shownFrames ∧
      left.motions.shownFrames = right.motions.shownFrames ∧
      left.shownFonts = right.shownFonts := by
  have hcss : ∀ sheet : Sheet, sheet.css =
      { rules := sheet.shownStyles.map Css.Block.ofPairs
        keyframes := sheet.animations.shownFrames.map Css.Keyframes.ofPairs
        reducedMotion := sheet.motions.shownFrames.map Css.Keyframes.ofPairs
        fontFaces := sheet.shownFonts.map Css.FontFace.ofPairs } := by
    intro sheet
    rw [← rules_eq, ← fontFaces_eq, ← Table.map_keyframes, ← Table.map_keyframes]
    rfl
  have hkeyframes := List.map_injective_iff.mpr Css.Keyframes.ofPairs_injective
  rw [hcss, hcss, Css.mk.injEq, (List.map_injective_iff.mpr Css.Block.ofPairs_injective).eq_iff,
    hkeyframes.eq_iff, hkeyframes.eq_iff,
    (List.map_injective_iff.mpr Css.FontFace.ofPairs_injective).eq_iff]

end Sheet

/-- **Stylesheets are unambiguous.**  Two clean sheets are written as the same text exactly if
    they show the same: the same selectors with the same properties and the same values that
    win, the same animations and animations with less motion, and the same fonts, all in the
    same order and in the spelling with dashes.  `Sheet.css_eq_iff` says so table by table. -/
theorem rendered_css_unambiguous {left right : Sheet} (hleft : left.Clean) (hright : right.Clean) :
    (∃ text, left.render false = .ok text ∧ right.render false = .ok text) ↔
      left.css = right.css := by
  rw [hleft.render_eq, hright.render_eq]
  constructor
  · rintro ⟨text, htext, htext'⟩
    refine Css.write_inj hleft.css hright.css ?_
    rw [Except.ok.inj htext, Except.ok.inj htext']
  · intro h
    exact ⟨left.css.write, rfl, by rw [h]⟩

/-- Two sheets with something of each kind, of which the one has a value that does not win. -/
theorem rendered_css_unambiguous_candidates :
    let filled (sheet : Sheet) : Sheet :=
      ((((sheet.addValue ".a".toList "marginTop".toList "a:b".toList).setKeyframe
        "k".toList "from".toList "left".toList "0".toList).setMotion
        [] "to".toList "left".toList "0".toList).setFontSource
        "Mono".toList "x)".toList).setFontDescriptor
        "Mono".toList "fontWeight".toList "1".toList
    let left := filled {}
    let right := filled (({} : Sheet).addValue ".a".toList "marginTop".toList "1".toList)
    left.Clean ∧ right.Clean ∧ left ≠ right ∧ left.render false = right.render false ∧
      left.css = right.css := by
  intro filled left right
  have hleft : left.Clean := by constructor <;> decide +kernel
  have hright : right.Clean := by constructor <;> decide +kernel
  have hrender : left.render false = right.render false := by decide +kernel
  refine ⟨hleft, hright, by decide +kernel, hrender, ?_⟩
  refine (rendered_css_unambiguous hleft hright).mp ?_
  exact ⟨left.css.write, hleft.render_eq, hrender ▸ hleft.render_eq⟩

end Dyehouse
