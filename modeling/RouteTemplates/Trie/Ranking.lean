import RouteTemplates.Trie.Basic

/-!
# The order of alternatives

Siblings are tried from the most specific to the least.  Literals come before
slots and ends, longer plain literals before shorter ones, and of what is left
the sibling with more ways on comes first.  Separators are literals without
weight.  Ranking is stable: siblings that tie stay in the order they had.
-/

namespace RouteTemplates

/-- How specific a segment is among literals. -/
def Segment.weight : Segment → Nat
  | .literal .plain text => Text.byteSize text
  | _ => 0

/-- What siblings are compared by. -/
structure Standing where
  label : Segment
  waysOn : Nat

/-- Whether `a` has to be tried before `b`. -/
def Standing.outranks (a b : Standing) : Bool :=
  if a.label.isLiteral != b.label.isLiteral then a.label.isLiteral
  else if a.label.weight ≠ b.label.weight then b.label.weight < a.label.weight
  else b.waysOn < a.waysOn

section Ranking

variable {α : Type}

/-- The item put before the first one it does not come after. -/
def placeBy (outranks : α → α → Bool) (a : α) : List α → List α
  | [] => [a]
  | b :: more => if outranks b a then b :: placeBy outranks a more else a :: b :: more

def rankBy (outranks : α → α → Bool) (siblings : List α) : List α :=
  siblings.foldr (placeBy outranks) []

end Ranking

namespace Node

def standing (n : Node) : Standing := ⟨n.label, n.children.length⟩

def outranks (a b : Node) : Bool := a.standing.outranks b.standing

def rank (siblings : List Node) : List Node := rankBy outranks siblings

end Node
end RouteTemplates
