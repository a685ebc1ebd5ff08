import Dyehouse.Sheet.Basic
import Dyehouse.Text.Case

/-!
# Stylesheets

A sheet is written in two steps.  `Sheet.css` decides what is shown: which of the values of
a property wins, which styles and fonts have anything to show, and how properties are
spelled.  `Css.write` then puts the result down as text, and `Css.writeTight` leaves out
the semicolons that stand before a closing brace.
-/

namespace Dyehouse

/-! ### The value that shows -/

/-- Whether a value insists on being shown. -/
def isImportant (value : Text) : Bool :=
  Text.endsWith "!important".toList (Text.stripEnd value)

/-- The value that shows: the last of those that insist, else the last of all. -/
def dominant? (values : List Text) : Option Text :=
  (values.filter isImportant).getLast?.or values.getLast?

/-! ### What a stylesheet consists of -/

namespace Css

/-- A property, in the spelling with dashes, and its value. -/
structure Declaration where
  property : Text
  value : Text
  deriving DecidableEq, Repr

/-- Declarations under a selector or under the label of a frame. -/
structure Block where
  head : Text
  declarations : List Declaration
  deriving DecidableEq, Repr

/-- An animation and its frames. -/
structure Keyframes where
  name : Text
  frames : List Block
  deriving DecidableEq, Repr

/-- A font that can be loaded. -/
structure FontFace where
  family : Text
  source : Text
  descriptors : List Declaration
  deriving DecidableEq, Repr

end Css

/-- What a stylesheet shows, in the order in which it is written. -/
structure Css where
  rules : List Css.Block
  keyframes : List Css.Keyframes
  reducedMotion : List Css.Keyframes
  fontFaces : List Css.FontFace
  deriving DecidableEq, Repr

namespace Css

/-! ### Writing it down -/

/-- Text between braces. -/
def braced (body : Text) : Text :=
  '\x7b' :: (body ++ ['\x7d'])

/-- A property and its value, with no semicolon. -/
def Declaration.pair (d : Declaration) : Text :=
  d.property ++ ':' :: d.value

/-- A property and its value, ended by a semicolon. -/
def Declaration.write (d : Declaration) : Text :=
  d.pair ++ [';']

/-- A block: its head, and its declarations between braces. -/
def Block.write (b : Block) : Text :=
  b.head ++ braced (b.declarations.flatMap Declaration.write)

/-- An animation with its frames. -/
def Keyframes.write (k : Keyframes) : Text :=
  "@keyframes ".toList ++ k.name ++ braced (k.frames.flatMap Block.write)

/-- The animations for readers who ask for less motion, under one common condition; nothing
    if there are none. -/
def writeReducedMotion (motions : List Keyframes) : Text :=
  if motions.isEmpty then []
  else "@media (prefers-reduced-motion)".toList ++ braced (motions.flatMap Keyframes.write)

/-- A font: semicolons stand only between its parts. -/
def FontFace.write (f : FontFace) : Text :=
  "@font-face".toList ++ braced ([';'].intercalate
    (("font-family:".toList ++ f.family) :: ("src:url(".toList ++ f.source ++ [')']) ::
      f.descriptors.map Declaration.pair))

/-- The stylesheet as text: rules, animations, animations with less motion, fonts. -/
def write (css : Css) : Text :=
  css.rules.flatMap Block.write ++ css.keyframes.flatMap Keyframes.write ++
    writeReducedMotion css.reducedMotion ++ css.fontFaces.flatMap FontFace.write

/-- The stylesheet as text, without a semicolon directly before a closing brace. -/
def writeTight (css : Css) : Text :=
  Text.dropBefore ';' '\x7d' css.write

end Css

/-! ### From a sheet to a stylesheet -/

/-- A property and its value as a declaration. -/
def declarationOf (entry : Text × Text) : Css.Declaration :=
  { property := Text.kebabCase entry.1, value := entry.2 }

/-- A style as a block: each property with the value that shows. -/
def Style.block (selector : Text) (style : Style) : Css.Block :=
  { head := selector
    declarations := style.entries.map fun entry =>
      declarationOf (entry.1, (dominant? entry.2.toList).getD []) }

/-- An animation as it is shown. -/
def Frames.keyframes (name : Text) (frames : Frames) : Css.Keyframes :=
  { name, frames := frames.entries.map fun frame =>
      { head := frame.1, declarations := frame.2.entries.map declarationOf } }

/-- A font as it is shown: only if there is somewhere to load it from. -/
def Font.face? (family : Text) (font : Font) : Option Css.FontFace :=
  match font.source with
  | none => none
  | some source =>
    if source.isEmpty then none
    else some { family, source, descriptors := font.descriptors.entries.map declarationOf }

/-- Why a sheet cannot be written. -/
inductive RenderError where
  /-- Some property of some style was given no value at all. -/
  | noCandidates
  deriving DecidableEq, Repr

/-- What is said about a sheet that cannot be written. -/
def RenderError.message : RenderError → Text
  | noCandidates => "No candidate values to choose from".toList

namespace Sheet

/-- What a sheet shows.  Styles without a property are left out. -/
def css (sheet : Sheet) : Css where
  rules := (sheet.styles.entries.filter fun entry => !entry.2.isEmpty).map fun entry =>
    Style.block entry.1 entry.2
  keyframes := sheet.animations.entries.map fun entry => Frames.keyframes entry.1 entry.2
  reducedMotion := sheet.motions.entries.map fun entry => Frames.keyframes entry.1 entry.2
  fontFaces := sheet.fonts.entries.filterMap fun entry => Font.face? entry.1 entry.2

/-- Whether every property of every style was given a value. -/
def isDecided (sheet : Sheet) : Bool :=
  sheet.styles.entries.all fun entry => entry.2.entries.all fun property => !property.2.isEmpty

theorem isDecided_iff {sheet : Sheet} :
    sheet.isDecided = true ↔
      ∀ style ∈ sheet.styles.entries, ∀ property ∈ style.2.entries, property.2 ≠ #[] := by
  simp [isDecided]

/-- The sheet as the text of a stylesheet, by `CSSBuilder.build` or `MinCSSBuilder.build`. -/
def render (sheet : Sheet) (minify : Bool) : Except RenderError Text :=
  if sheet.isDecided then .ok (if minify then sheet.css.writeTight else sheet.css.write)
  else .error .noCandidates

end Sheet

/-- The value that shows among the given ones, which must not be none at all
    (`get_dominant_style`). -/
def dominant (values : List Text) : Except RenderError Text :=
  match dominant? values with
  | some value => .ok value
  | none => .error .noCandidates

end Dyehouse
