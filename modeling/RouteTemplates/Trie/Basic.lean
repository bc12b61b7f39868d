import RouteTemplates.Segment.Basic

/-!
# Tries of segments

Templates that begin alike share their first segments.  A node carries one
segment, its children are the ways on from there in the order in which they are
tried, and a template is a path from a root down to the end it carries.
-/

namespace RouteTemplates

inductive Node
  | mk (label : Segment) (children : List Node)

namespace Node

def label : Node → Segment
  | mk label _ => label

def children : Node → List Node
  | mk _ children => children

@[simp]
theorem label_mk (label : Segment) (children : List Node) : (mk label children).label = label :=
  rfl

@[simp]
theorem children_mk (label : Segment) (children : List Node) :
    (mk label children).children = children := rfl

mutual

/-- The number of nodes in a tree. -/
def size : Node → Nat
  | mk _ children => totalSize children + 1

/-- The number of nodes in trees. -/
def totalSize : List Node → Nat
  | [] => 0
  | n :: more => n.size + totalSize more

end

/-- Whether the segments can be followed down from the roots of the trees. -/
def holds : List Segment → List Node → Bool
  | [], _ => true
  | s :: path, trees =>
    match trees.find? fun n => n.label = s with
    | some n => holds path n.children
    | none => false

end Node

/-- The templates a trie was given, merged.  `size` counts the different ones,
and `longest` is the number of segments of the longest. -/
structure Trie where
  roots : List Node
  size : Nat
  longest : Nat

namespace Trie

def empty : Trie := ⟨[], 0, 0⟩

instance : Inhabited Trie := ⟨empty⟩

def nodeCount (t : Trie) : Nat := Node.totalSize t.roots

end Trie
end RouteTemplates
