import RouteTemplates.Scratch.Buffer

/-!
# Pools of buffers

A pool lends buffers and keeps those that come back, the last one on top.  A
buffer that has grown beyond the ceiling is not kept.
-/

namespace RouteTemplates

/-- `initial` is the room a lent buffer has at least. -/
structure BufferPool where
  idle : List Buffer
  initial : Nat
  ceiling : Nat
  deriving DecidableEq, Repr

namespace BufferPool

def withCeiling (ceiling : Nat) : BufferPool := ⟨[], 0, ceiling⟩

/-- Lends the buffer that came back last, or a new one. -/
def lend (p : BufferPool) : Buffer × BufferPool :=
  match p.idle with
  | [] => (Buffer.empty.reserve p.initial, p)
  | b :: idle => (b.reserve p.initial, { p with idle })

def takeBack (p : BufferPool) (b : Buffer) : BufferPool :=
  if p.ceiling < b.capacity then p else { p with idle := b.clear :: p.idle }

/-- The pool after a buffer has been lent, filled with `n` items and given
back. -/
def use (p : BufferPool) (n : Nat) : BufferPool :=
  let (b, p) := p.lend
  p.takeBack (b.pushMany n)

@[simp]
theorem initial_use (p : BufferPool) (n : Nat) : (p.use n).initial = p.initial := by
  rw [use, lend]
  cases p.idle <;> (dsimp only [takeBack]; split <;> rfl)

@[simp]
theorem ceiling_use (p : BufferPool) (n : Nat) : (p.use n).ceiling = p.ceiling := by
  rw [use, lend]
  cases p.idle <;> (dsimp only [takeBack]; split <;> rfl)

/-- Lent buffers get room for `n` items from now on, up to the ceiling. -/
def foresee (p : BufferPool) (n : Nat) : BufferPool :=
  { p with initial := max p.initial (min n p.ceiling) }

end BufferPool
end RouteTemplates
