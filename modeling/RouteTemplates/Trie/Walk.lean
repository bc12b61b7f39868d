import RouteTemplates.Trie.Arena
import RouteTemplates.Trie.Trail

/-!
# Walking an arena

The trail of an input can be noted from the cells of an arena alone.  A step then names
the place of a cell, and the ways on from there are the places that the cell lists.

Nothing keeps a cell from listing itself, so a walk is told how many levels it may go
down.  Where the cells hold trees, their number is always enough.
-/

namespace RouteTemplates
namespace Arena

/-- Whether one end is the only way on from the cell. -/
def endsHere (a : Arena) (i : Nat) : Bool :=
  match a.level (some i) with
  | [j] => (a.label? j).any Segment.isFinish
  | _ => false

/-- The first of the places that bounds a value at the front of `rest`, and the width of
the value. -/
def boundary? (a : Arena) (rest : Text) : (places : List Nat) → Option (Nat × Nat)
  | [] => none
  | i :: more =>
    match a.label? i with
    | some (.literal _ mark) =>
      match Text.find? mark rest with
      | some width => some (i, width)
      | none => boundary? a rest more
    | some (.finish _) => some (i, Text.byteSize rest)
    | _ => boundary? a rest more

section Level

variable (a : Arena) (input : Text)
  (below : (siblings : List Nat) → (position : Nat) → Trail Nat)

/-- The trail through a place that has bounded a value. -/
def passBoundary (i position : Nat) : Trail Nat :=
  match a.label? i with
  | some (.finish _) => .arrival i
  | some label =>
    (below (a.level (some i)) (position + Text.byteSize label.matched)).cons (.passed i)
  | none => .stuck

/-- The trail through a place, if it can be taken.  `below` goes on from the ways on of a
cell, and `last` tells that no sibling follows the place. -/
def enter? (i : Nat) (last : Bool) (position : Nat) : Option (Trail Nat) :=
  match a.label? i with
  | some .start => some ((below (a.level (some i)) position).cons (.passed i))
  | some (.finish _) => if position = Text.byteSize input then some (.arrival i) else none
  | some (.literal _ text) =>
    let stop := position + Text.byteSize text
    if Text.byteSize input < stop then none
    else if a.endsHere i ∧ stop ≠ Text.byteSize input then none
    else if (Text.dropBytes? position input).any text.isPrefixOf then
      some ((below (a.level (some i)) stop).cons (.passed i))
    else none
  | some (.slot _) =>
    match (Text.dropBytes? position input).bind fun rest =>
        a.boundary? rest (a.level (some i)) with
    | some (next, width) =>
      if width = 0 ∧ !last then none
      else
        let stop := position + width
        some ((a.passBoundary below next stop).cons (.captured i position stop))
    | none => none
  | some (.filled _ _) | none => none

/-- The trail through the first of the siblings that can be taken. -/
def enterFirst (position : Nat) : (siblings : List Nat) → Trail Nat
  | [] => .stuck
  | i :: more =>
    match a.enter? input below i more.isEmpty position with
    | some t => t
    | none => enterFirst position more

end Level

def walkFrom (a : Arena) (input : Text) :
    (depth : Nat) → (siblings : List Nat) → (position : Nat) → Trail Nat
  | 0, _, _ => .stuck
  | depth + 1, siblings, position =>
    a.enterFirst input (fun siblings position => walkFrom a input depth siblings position)
      position siblings

def walk (a : Arena) (input : Text) : Trail Nat := a.walkFrom input a.cells.length a.roots 0

/-- The label of a cell that was passed as it stands. -/
def passed? (a : Arena) : Step Nat → Option Segment
  | .passed i => a.label? i
  | .captured _ _ _ => none

/-- Whether the trail has led from a start to an end. -/
def complete (a : Arena) (t : Trail Nat) : Bool :=
  t.arrived && t.steps.head?.bind a.passed? == some .start &&
    (t.steps.getLast?.bind a.passed?).any Segment.isFinish

/-- The template that the walk ends in, filled from the input. -/
def resolve? (a : Arena) (input : Text) : Option Template :=
  let t := a.walk input
  if a.complete t then (t.steps.mapM (Step.readBack? a.label? input)).map .counted else none

end Arena
end RouteTemplates
