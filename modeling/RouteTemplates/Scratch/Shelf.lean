import RouteTemplates.Scratch.BufferPool
import RouteTemplates.Template.Extraction

/-!
# Reading values into lent buffers

An extraction pushes its values into a buffer that was lent to it, and its result is all
that the buffer holds in the end, whoever pushed it.  The sizes of buffers do not show
this, so here a buffer also keeps its items, and a shelf is a pool of such buffers.
-/

namespace RouteTemplates

variable {α : Type}

/-- A buffer with the items in it, the first one pushed first. -/
structure Holding (α : Type) where
  items : List α
  capacity : Nat
  deriving DecidableEq, Repr

namespace Holding

def empty : Holding α := ⟨[], 0⟩

def sizes (h : Holding α) : Buffer := ⟨h.capacity, h.items.length⟩

def reserve (h : Holding α) (extra : Nat) : Holding α :=
  { h with capacity := (h.sizes.reserve extra).capacity }

def push (h : Holding α) (a : α) : Holding α := ⟨h.items ++ [a], h.sizes.push.capacity⟩

def clear (h : Holding α) : Holding α := { h with items := [] }

end Holding

structure Shelf (α : Type) where
  idle : List (Holding α)
  initial : Nat
  ceiling : Nat
  deriving DecidableEq, Repr

namespace Shelf

def withCeiling (ceiling : Nat) : Shelf α := ⟨[], 0, ceiling⟩

/-- The pool that is left when the items are forgotten. -/
def sizes (s : Shelf α) : BufferPool := ⟨s.idle.map Holding.sizes, s.initial, s.ceiling⟩

def lend (s : Shelf α) : Holding α × Shelf α :=
  match s.idle with
  | [] => (Holding.empty.reserve s.initial, s)
  | h :: idle => (h.reserve s.initial, { s with idle })

def takeBack (s : Shelf α) (h : Holding α) : Shelf α :=
  if s.ceiling < h.capacity then s else { s with idle := h.clear :: s.idle }

end Shelf

namespace Template

/-- Pushes the values into a buffer as they are read, and tells whether nothing is left
over. -/
def extractInto : List Segment → Text → Holding Binding → Holding Binding × Bool
  | [], input, h | .finish _ :: _, input, h => (h, input.isEmpty)
  | .start :: more, input, h => extractInto more input h
  | .literal _ text :: more, input, h =>
    match text.isPrefixOf? input with
    | some rest => extractInto more rest h
    | none => (h, false)
  | .slot written :: more, input, h =>
    match slotValue? more input with
    | some (value, rest) => extractInto more rest (h.push ⟨Segment.nameWithin written, value⟩)
    | none => (h, false)
  | .filled written value :: more, input, h =>
    match Text.takeBytes? (Text.byteSize value) input with
    | some (value, rest) => extractInto more rest (h.push ⟨Segment.nameWithin written, value⟩)
    | none => (h, false)

/-- The values of the slots, if the input matches, read with a buffer from the shelf.  The
buffer goes back whether it matches or not. -/
def lookupIn (t : Template) (s : Shelf Binding) (input : Text) :
    Option Bindings × Shelf Binding :=
  let (lent, rest) := s.lend
  let (filled, complete) :=
    if t.segments = [] then (lent, false) else extractInto t.segments input lent
  let found :=
    if complete ∧ filled.items.length = t.slotCount then some filled.items else none
  (found, rest.takeBack filled)

end Template

/-- The shelf after lookups of templates in inputs. -/
def Shelf.after (s : Shelf Binding) (calls : List (Template × Text)) : Shelf Binding :=
  calls.foldl (fun s call => (call.1.lookupIn s call.2).2) s

end RouteTemplates
