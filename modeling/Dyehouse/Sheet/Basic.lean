import Dyehouse.Table
import Dyehouse.Text.Blank

/-!
# Sheets

A sheet gathers what the declarations of a source add up to: style rules, animations,
animations for readers who ask for less motion, and fonts.

A property of a style rule keeps every value it was ever given, in order, because which of
them shows is only decided when the sheet is written.  A property of a keyframe or of a
font keeps the last value alone.
-/

namespace Dyehouse

/-- A style: to each property, the values it was given, in order. -/
abbrev Style := Table (Array Text)

/-- The frames of an animation: to each label, the properties and their values. -/
abbrev Frames := Table (Table Text)

/-- A font: where it is loaded from, and how it is described. -/
structure Font where
  source : Option Text := none
  descriptors : Table Text := ∅
  deriving DecidableEq, Repr

/-- What the declarations of a source add up to. -/
structure Sheet where
  styles : Table Style := ∅
  animations : Table Frames := ∅
  motions : Table Frames := ∅
  fonts : Table Font := ∅
  deriving DecidableEq, Repr

/-- A value offered for a property of a selector. -/
structure Candidate where
  selector : Text
  property : Text
  value : Text
  deriving DecidableEq, Repr

/-- One value offered to each of the selectors. -/
def Candidate.spread (selectors : List Text) (property value : Text) : List Candidate :=
  selectors.map fun selector => { selector, property, value }

/-- Every value of every property of a style offered to the selectors, in order. -/
def Candidate.ofStyle (selectors : List Text) (style : Style) : List Candidate :=
  style.entries.flatMap fun entry => entry.2.toList.flatMap fun value =>
    Candidate.spread selectors entry.1 value

def Style.add (style : Style) (property value : Text) : Style :=
  style.alter property fun values => (values.getD #[]).push value

/-- Set a property of the frame with the given label. -/
def Frames.set (frames : Frames) (label property value : Text) : Frames :=
  frames.alter (Text.strip label) fun frame => (frame.getD ∅).insert property value

namespace Sheet

/-! ### Writing declarations -/

/-- Give a property of one selector one more value. -/
def addValue (sheet : Sheet) (selector property value : Text) : Sheet :=
  { sheet with styles := sheet.styles.alter selector fun style =>
      Style.add (style.getD ∅) property value }

def addCandidates (sheet : Sheet) (candidates : List Candidate) : Sheet :=
  candidates.foldl (fun sheet c => sheet.addValue c.selector c.property c.value) sheet

/-- Give a property of every selector one more value.  Selectors are stripped, and blank
    ones are left out. -/
def addStyle (sheet : Sheet) (selectors : List Text) (property value : Text) : Sheet :=
  sheet.addCandidates (Candidate.spread (Text.tidy selectors) property value)

def setKeyframe (sheet : Sheet) (animation label property value : Text) : Sheet :=
  { sheet with animations := sheet.animations.alter animation fun frames =>
      Frames.set (frames.getD ∅) label property value }

/-- Set a property in a frame of an animation for readers who ask for less motion. -/
def setMotion (sheet : Sheet) (motion label property value : Text) : Sheet :=
  { sheet with motions := sheet.motions.alter motion fun frames =>
      Frames.set (frames.getD ∅) label property value }

def setFontSource (sheet : Sheet) (family source : Text) : Sheet :=
  { sheet with fonts := sheet.fonts.alter family fun font =>
      { font.getD {} with source := some source } }

def setFontDescriptor (sheet : Sheet) (family property value : Text) : Sheet :=
  { sheet with fonts := sheet.fonts.alter family fun font =>
      let font := font.getD {}
      { font with descriptors := font.descriptors.insert property value } }

/-- Put a whole style under a selector as it stands. -/
def putStyle (sheet : Sheet) (selector : Text) (style : Style) : Sheet :=
  { sheet with styles := sheet.styles.insert selector style }

/-! ### Classes -/

/-- The style of a class: that of the selector with a dot before the name, else that of the
    bare name. -/
def findClass? (sheet : Sheet) (name : Text) : Option Style :=
  (sheet.styles.get? ('.' :: name)).or (sheet.styles.get? name)

/-- Give the selectors every value of every property of a style, in order.  Selectors are
    stripped, and blank ones are left out. -/
def copyStyle (sheet : Sheet) (selectors : List Text) (style : Style) : Sheet :=
  sheet.addCandidates (Candidate.ofStyle (Text.tidy selectors) style)

/-- Copy the style that a class has at this moment onto the selectors; `none` if the class
    is not defined. -/
def applyClass? (sheet : Sheet) (selectors : List Text) (name : Text) : Option Sheet :=
  (sheet.findClass? name).map fun style => sheet.copyStyle selectors style

/-! ### The sheet as a whole -/

/-- Whether nothing has been written at all. -/
def isEmpty (sheet : Sheet) : Bool :=
  sheet.styles.isEmpty && sheet.animations.isEmpty && sheet.motions.isEmpty &&
    sheet.fonts.isEmpty

/-- The sheet in one line: how much of each kind there is. -/
def summary (sheet : Sheet) : Text :=
  "Store(styles=".toList ++ Text.ofNat sheet.styles.size ++
    ", animations=".toList ++ Text.ofNat sheet.animations.size ++
    ", motions=".toList ++ Text.ofNat sheet.motions.size ++
    ", fonts=".toList ++ Text.ofNat sheet.fonts.size ++ [')']

end Sheet

end Dyehouse
