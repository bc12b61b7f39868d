import RouteTemplates.Template.Basic
import RouteTemplates.Template.Defect

/-!
# Templates from segments

A row of segments is a template when it is framed by the two markers, its
literals are not empty, a literal stands between each two slots, and no slot is
filled.  The frame is looked at first; of several defects within it the leftmost
is named.
-/

namespace RouteTemplates
namespace Template

/-- The leftmost defect between the markers.  `index` is the place of the first
segment given, and `afterSlot` tells whether a slot stands before it. -/
def bodyDefect? (index : Nat) (afterSlot : Bool) : List Segment → Option Defect
  | [] => none
  | .start :: _ | .finish _ :: _ => some (.misplacedMarker index)
  | .literal _ text :: more =>
    if text = [] then some (.emptyLiteral index) else bodyDefect? (index + 1) false more
  | .slot _ :: more =>
    if afterSlot then some (.unseparatedSlots index) else bodyDefect? (index + 1) true more
  | .filled _ _ :: _ => some (.filledSlot index)

def ofSegments (segments : List Segment) : Except Defect Template :=
  match segments with
  | .start :: framed =>
    match framed.getLast? with
    | some (.finish _) =>
      match bodyDefect? 1 false framed.dropLast with
      | none => .ok (counted segments)
      | some defect => .error defect
    | _ => .error .missingFinish
  | _ => .error .missingStart

end Template
end RouteTemplates
