import RouteTemplates.Trie.Basic
import RouteTemplates.Template.Basic

/-!
# Resolving an input

The way goes down from the roots and takes at each level the first sibling that
can be taken.  It never turns back: when it leads nowhere the input is not
resolved, although another sibling might have matched.  So what can be taken is
chosen with some care.

* A literal has to stand at the front of the input.  One that only an end
  follows has to be all of the input as well.
* An end is taken when no input is left.
* A slot is taken together with the child that bounds its value, which is the
  first child that can: a literal at its first occurrence, or an end, behind the
  whole input.  A slot that would be filled with nothing is left to siblings
  after it, if there are any.

A descent gives the segments taken, slots filled, also when it fails, because
the space it needed depends on how many there were.
-/

namespace RouteTemplates

/-- The segments taken on the way down, and whether the last one is an end. -/
structure Descent where
  taken : List Segment
  arrived : Bool
  deriving DecidableEq, Repr

namespace Descent

def stuck : Descent := ⟨[], false⟩

def arrival (finish : Segment) : Descent := ⟨[finish], true⟩

/-- The descent that takes `s` first. -/
def cons (s : Segment) (d : Descent) : Descent := { d with taken := s :: d.taken }

/-- Whether the descent has led from a start to an end. -/
def complete (d : Descent) : Bool :=
  d.arrived && d.taken.head? == some .start && d.taken.getLast?.any Segment.isFinish

end Descent

namespace Node

/-- Whether one end is the only way on. -/
def endsHere : List Node → Bool
  | [mk (.finish _) _] => true
  | _ => false

mutual

/-- The descent from siblings, through the first that can be taken. -/
def descend : List Node → Text → Descent
  | [], _ => .stuck
  | n :: more, input =>
    match n.take? more.isEmpty input with
    | some d => d
    | none => descend more input

/-- The descent through a node, if the node can be taken.  `last` tells that no
sibling follows it. -/
def take? : Node → (last : Bool) → Text → Option Descent
  | mk label children, last, input =>
    match label with
    | .start => some ((descend children input).cons label)
    | .finish _ => if input = [] then some (.arrival label) else none
    | .literal _ text =>
      match text.isPrefixOf? input with
      | some rest =>
        if endsHere children ∧ rest ≠ [] then none
        else some ((descend children rest).cons label)
      | none => none
    | .slot written =>
      match boundedBy? children input with
      | some (value, d) =>
        if value = [] ∧ !last then none else some (d.cons (.filled written value))
      | none => none
    | .filled _ _ => none

/-- The value of a slot with these children and the descent behind it, through
the first child that bounds the value. -/
def boundedBy? : List Node → Text → Option (Text × Descent)
  | [], _ => none
  | n :: more, input =>
    match n.bound? input with
    | some found => some found
    | none => boundedBy? more input

/-- The value of a slot that the node bounds, and the descent through the node
behind it. -/
def bound? : Node → Text → Option (Text × Descent)
  | mk label children, input =>
    match label with
    | .literal _ mark =>
      match Text.cutAt? mark input with
      | some (value, rest) => some (value, (descend children rest).cons label)
      | none => none
    | .finish _ => some (input, .arrival label)
    | .start | .slot _ | .filled _ _ => none

end
end Node

namespace Trie

def descend (t : Trie) (input : Text) : Descent := Node.descend t.roots input

/-- The template that the descent ends in, filled from the input. -/
def resolve? (t : Trie) (input : Text) : Option Template :=
  let d := t.descend input
  if d.complete then some (.counted d.taken) else none

end Trie
end RouteTemplates
