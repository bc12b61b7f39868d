import RouteTemplates.Trie.Ranking
import RouteTemplates.Template.Basic

/-!
# Tries in an arena

A trie can be kept in one row of cells, a cell for each node in the order in
which the nodes are made.  A cell names its children by their places in the row,
so adding a template never moves a node that is there already.
-/

namespace RouteTemplates

structure Cell where
  label : Segment
  children : List Nat
  deriving DecidableEq, Repr

namespace Cell

def standing (c : Cell) : Standing := ⟨c.label, c.children.length⟩

end Cell

structure Arena where
  cells : List Cell
  roots : List Nat
  deriving DecidableEq, Repr

namespace Arena

def empty : Arena := ⟨[], []⟩

def label? (a : Arena) (i : Nat) : Option Segment := a.cells[i]?.map Cell.label

/-- The places of the children of a cell, or of the roots. -/
def level (a : Arena) : (parent : Option Nat) → List Nat
  | none => a.roots
  | some i => (a.cells[i]?.map Cell.children).getD []

def setLevel (a : Arena) (places : List Nat) : (parent : Option Nat) → Arena
  | none => { a with roots := places }
  | some i => { a with cells := a.cells.modify i fun c => { c with children := places } }

def outranks (a : Arena) (i j : Nat) : Bool :=
  match a.cells[i]?, a.cells[j]? with
  | some c, some d => c.standing.outranks d.standing
  | _, _ => false

def rankLevel (parent : Option Nat) (a : Arena) : Arena :=
  a.setLevel (rankBy a.outranks (a.level parent)) parent

/-- The arena with one more cell, which is nobody's child yet. -/
def extend (a : Arena) (label : Segment) : Arena := { a with cells := a.cells ++ [⟨label, []⟩] }

/-- A new cell as the last child of the parent. -/
def make (a : Arena) (parent : Option Nat) (label : Segment) : Arena :=
  (a.extend label).setLevel (a.level parent ++ [a.cells.length]) parent

/-- The place of the child with the label, which is made behind the other
children if it is not there. -/
def child (a : Arena) (parent : Option Nat) (label : Segment) : Nat × Arena :=
  match (a.level parent).find? fun i => a.label? i = some label with
  | some i => (i, a)
  | none => (a.cells.length, a.make parent label)

/-- The arena with a cell for each segment of the path, and the parents on the
way, the first one first. -/
def grow : List Segment → (parent : Option Nat) → Arena → List (Option Nat) × Arena
  | [], _, a => ([], a)
  | s :: path, parent, a =>
    let (place, a) := a.child parent s
    let (parents, a) := grow path (some place) a
    (parent :: parents, a)

/-- Nothing is ranked when no cell was made.  The deepest level is ranked first,
since the levels above it look at how many children there are. -/
def insert (a : Arena) (template : Template) : Arena :=
  let (parents, grown) := grow template.unfilled.segments none a
  if grown.cells.length = a.cells.length then grown else parents.foldr rankLevel grown

/-- The arena that has been given the templates in turn. -/
def ofTemplates (templates : List Template) : Arena := templates.foldl insert empty

end Arena
end RouteTemplates
