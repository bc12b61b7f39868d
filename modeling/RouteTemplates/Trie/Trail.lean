import RouteTemplates.Trie.Resolution

/-!
# Trails

A descent gives up the input from the front.  The same ways can be taken while the input
stays whole and only a position in it moves on.  The position is a number of bytes, the
characters at it are looked up each time, and a step that is noted says which node was
passed, or between which positions the value of a slot lies.  Such a trail needs no
copies of the input, and its steps are read back against the input afterwards.

A position beyond the end, or inside a character, has nothing behind it.
-/

namespace RouteTemplates
namespace Text

/-- What lies behind the first `n` bytes. -/
def dropBytes? (n : Nat) (t : Text) : Option Text := (takeBytes? n t).map Prod.snd

/-- What lies between two positions. -/
def slice? (start stop : Nat) (t : Text) : Option Text :=
  if start ≤ stop then
    (dropBytes? start t).bind fun rest => (takeBytes? (stop - start) rest).map Prod.fst
  else none

/-- The position of the first occurrence of `mark`. -/
def find? (mark t : Text) : Option Nat := (cutAt? mark t).map fun (before, _) => byteSize before

end Text

/-- One step noted on the way: a node passed as it stands, or a slot together with the
positions between which its value lies. -/
inductive Step (α : Type)
  | passed (node : α)
  | captured (slot : α) (start stop : Nat)
  deriving DecidableEq, Repr

namespace Step

variable {α β : Type}

def node : Step α → α
  | passed n => n
  | captured slot _ _ => slot

/-- The step with another name for its node. -/
def map (f : α → β) : Step α → Step β
  | passed n => .passed (f n)
  | captured slot start stop => .captured (f slot) start stop

/-- The segment that was taken, read back against the input. -/
def readBack? (label? : α → Option Segment) (input : Text) : Step α → Option Segment
  | passed n => label? n
  | captured slot start stop =>
    match label? slot, Text.slice? start stop input with
    | some (.slot written), some value => some (.filled written value)
    | _, _ => none

def segment? (input : Text) : Step Node → Option Segment :=
  readBack? (fun n => some n.label) input

/-- The number of bytes by which the step moves on. -/
def width : Step Node → Nat
  | passed n => Text.byteSize n.label.matched
  | captured _ start stop => stop - start

/-- The position behind the steps. -/
def reached : List (Step Node) → Nat
  | [] => 0
  | s :: steps => s.width + reached steps

end Step

/-- The steps noted on the way down, and whether the last one is an end. -/
structure Trail (α : Type) where
  steps : List (Step α)
  arrived : Bool
  deriving DecidableEq, Repr

namespace Trail

variable {α : Type}

def stuck : Trail α := ⟨[], false⟩

def arrival (finish : α) : Trail α := ⟨[.passed finish], true⟩

/-- The trail with the step `s` first. -/
def cons (s : Step α) (t : Trail α) : Trail α := { t with steps := s :: t.steps }

end Trail

namespace Node

mutual

/-- The trail from siblings on, through the first that can be taken. -/
def trail (input : Text) : List Node → (position : Nat) → Trail Node
  | [], _ => .stuck
  | n :: more, position =>
    match n.enter? input more.isEmpty position with
    | some t => t
    | none => trail input more position

/-- The trail through a node, if the node can be taken.  `last` tells that no sibling
follows it. -/
def enter? (input : Text) : Node → (last : Bool) → (position : Nat) → Option (Trail Node)
  | mk label children, last, position =>
    match label with
    | .start => some ((trail input children position).cons (.passed (mk label children)))
    | .finish _ =>
      if position = Text.byteSize input then some (.arrival (mk label children)) else none
    | .literal _ text =>
      let stop := position + Text.byteSize text
      if Text.byteSize input < stop then none
      else if endsHere children ∧ stop ≠ Text.byteSize input then none
      else if (Text.dropBytes? position input).any text.isPrefixOf then
        some ((trail input children stop).cons (.passed (mk label children)))
      else none
    | .slot _ =>
      match enterBounding? input children position with
      | some (width, t) =>
        if width = 0 ∧ !last then none
        else some (t.cons (.captured (mk label children) position (position + width)))
      | none => none
    | .filled _ _ => none

/-- The width of the value of a slot with these children and the trail behind it, through
the first child that bounds the value. -/
def enterBounding? (input : Text) : List Node → (position : Nat) → Option (Nat × Trail Node)
  | [], _ => none
  | n :: more, position =>
    match n.enterAhead? input position with
    | some found => some found
    | none => enterBounding? input more position

/-- The width of the value of a slot that the node bounds, and the trail through the node
behind it. -/
def enterAhead? (input : Text) : Node → (position : Nat) → Option (Nat × Trail Node)
  | mk label children, position =>
    match label with
    | .literal _ mark =>
      match (Text.dropBytes? position input).bind (Text.find? mark) with
      | some width =>
        let stop := position + width + Text.byteSize mark
        some (width, (trail input children stop).cons (.passed (mk label children)))
      | none => none
    | .finish _ =>
      (Text.dropBytes? position input).map fun rest =>
        (Text.byteSize rest, .arrival (mk label children))
    | .start | .slot _ | .filled _ _ => none

end
end Node

namespace Trie

def trail (t : Trie) (input : Text) : Trail Node := Node.trail input t.roots 0

end Trie
end RouteTemplates
