import Dyehouse.Collection
import Dyehouse.Sheet.Basic

/-!
# Edits of a sheet

What a statement does to a sheet, as data.  A statement is evaluated without looking at the
sheet and comes down to a list of edits; only applying a class reads what the sheet holds at
that moment.
-/

namespace Dyehouse

/-- One change to a sheet. -/
inductive Edit where
  | style (selector property value : Text)
  | keyframe (animation label property value : Text)
  | motion (name label property value : Text)
  | fontSource (family source : Text)
  | fontDescriptor (family property value : Text)
  | copyClass (selectors : List Text) (name : Text)
  deriving DecidableEq, Repr

/-- The edit that a declaration under a selector asks for while a collection is active.  The
    collection's route decides: the declaration goes under the selector, into the frame that
    the selector labels of the animation named like the collection, or under the font family
    that the selector names. -/
def Edit.declare (active : Collection) (selector property value : Text) : Edit :=
  match active.route with
  | .animation => .keyframe active.name selector property value
  | .motion => .motion active.name selector property value
  | .font =>
    if property = "src".toList then .fontSource selector value
    else .fontDescriptor selector property value
  | .implicit | .style => .style selector property value

namespace Sheet

/-- Make one change.  A class that is not defined leaves the sheet as it is. -/
def apply (sheet : Sheet) : Edit → Sheet
  | .style selector property value => sheet.addValue selector property value
  | .keyframe animation label property value => sheet.setKeyframe animation label property value
  | .motion name label property value => sheet.setMotion name label property value
  | .fontSource family source => sheet.setFontSource family source
  | .fontDescriptor family property value => sheet.setFontDescriptor family property value
  | .copyClass selectors name => (sheet.applyClass? selectors name).getD sheet

/-- The class that a change asks for and that is not defined. -/
def lacks? (sheet : Sheet) : Edit → Option Text
  | .copyClass _ name => if (sheet.findClass? name).isSome then none else some name
  | _ => none

end Sheet

end Dyehouse
