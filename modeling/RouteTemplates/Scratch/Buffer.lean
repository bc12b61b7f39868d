/-!
# Growing buffers

A buffer has room for `capacity` items and holds `length` of them.  Room is
added only when it is needed, and then at least doubled, so that filling a buffer
takes linear time; the first room is for four items.  Only the sizes are kept
here, since nothing depends on what a buffer holds.
-/

namespace RouteTemplates

structure Buffer where
  capacity : Nat
  length : Nat
  deriving DecidableEq, Repr

namespace Buffer

def empty : Buffer := ⟨0, 0⟩

/-- Room for `extra` more items. -/
def reserve (b : Buffer) (extra : Nat) : Buffer :=
  if b.length + extra ≤ b.capacity then b
  else { b with capacity := max (max (2 * b.capacity) (b.length + extra)) 4 }

def push (b : Buffer) : Buffer :=
  let b := b.reserve 1
  { b with length := b.length + 1 }

def pushMany (b : Buffer) : Nat → Buffer
  | 0 => b
  | n + 1 => b.push.pushMany n

/-- The room stays. -/
def clear (b : Buffer) : Buffer := { b with length := 0 }

end Buffer
end RouteTemplates
