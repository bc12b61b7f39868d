import Mathlib.Algebra.Group.Nat.Defs
import Mathlib.Order.Bounds.Basic
import RouteTemplates.Scratch.BufferPool

/-!
# How far buffers grow

Items that are pushed one after the other into a buffer without room take it through the
capacities 0, 4, 8, 16 and so on.  A buffer moves to the next of these stages only when it
is full, so the capacity it ends with is the least stage that is enough for what it holds
and not below the one it began with.  It does not tell how many times the buffer was
cleared and filled before.

A pool that lends one buffer at a time has one idle buffer at most, and what using the
pool leaves idle is decided by the capacity that the lent buffer ends with.
-/

namespace RouteTemplates
namespace Buffer

/-- The capacities that pushing reaches from a buffer without room. -/
def Stage (capacity : Nat) : Prop := capacity = 0 ∨ ∃ j, capacity = 4 * 2 ^ j

/-- What a full buffer of this capacity grows to when one more item comes. -/
def grown (capacity : Nat) : Nat := max (max (2 * capacity) (capacity + 1)) 4

theorem stage_zero : Stage 0 := .inl rfl

theorem lt_grown (capacity : Nat) : capacity < grown capacity := by
  unfold grown
  omega

theorem Stage.grown {capacity : Nat} (h : Stage capacity) : Stage (grown capacity) := by
  rcases h with rfl | ⟨j, rfl⟩
  · exact .inr ⟨0, rfl⟩
  · have hpos : 0 < 2 ^ j := Nat.two_pow_pos j
    refine .inr ⟨j + 1, ?_⟩
    rw [Buffer.grown, Nat.pow_succ]
    omega

/-- There is no stage between a stage and what a full buffer grows to from there. -/
theorem Stage.grown_le {capacity other : Nat} (h : Stage capacity) (ho : Stage other)
    (hlt : capacity < other) : Buffer.grown capacity ≤ other := by
  rcases ho with rfl | ⟨k, rfl⟩
  · omega
  have hk : 0 < 2 ^ k := Nat.two_pow_pos k
  rw [Buffer.grown]
  rcases h with rfl | ⟨j, rfl⟩
  · omega
  · have hpow : 2 ^ j < 2 ^ k := by omega
    have hle : j + 1 ≤ k := (Nat.pow_lt_pow_iff_right (by decide)).mp hpow
    have hdouble : 2 ^ (j + 1) ≤ 2 ^ k := Nat.pow_le_pow_right (by decide) hle
    rw [Nat.pow_succ] at hdouble
    omega

/-! ## Reserving and pushing -/

variable {b : Buffer} {n : Nat}

@[simp]
theorem length_reserve (b : Buffer) (n : Nat) : (b.reserve n).length = b.length := by
  rw [reserve]
  split <;> rfl

theorem reserve_of_le (h : b.length + n ≤ b.capacity) : b.reserve n = b := if_pos h

theorem le_capacity_reserve (b : Buffer) (n : Nat) : b.length + n ≤ (b.reserve n).capacity := by
  rw [reserve]
  split
  · assumption
  · show b.length + n ≤ max (max (2 * b.capacity) (b.length + n)) 4
    omega

theorem push_of_lt (h : b.length < b.capacity) : b.push = ⟨b.capacity, b.length + 1⟩ := by
  rw [push, reserve_of_le h]

theorem push_of_full (h : b.length = b.capacity) :
    b.push = ⟨grown b.capacity, b.capacity + 1⟩ := by
  rw [push, reserve, if_neg (by omega), h, grown]

theorem length_push (b : Buffer) : b.push.length = b.length + 1 := by
  rw [push, length_reserve]

theorem length_le_capacity_push (b : Buffer) : b.push.length ≤ b.push.capacity := by
  rw [length_push]
  exact le_capacity_reserve b 1

@[simp]
theorem length_pushMany (b : Buffer) (n : Nat) : (b.pushMany n).length = b.length + n := by
  induction n generalizing b with
  | zero => rfl
  | succ n ih =>
    rw [pushMany, ih, length_push]
    omega

theorem length_le_capacity_pushMany (h : b.length ≤ b.capacity) (n : Nat) :
    (b.pushMany n).length ≤ (b.pushMany n).capacity := by
  induction n generalizing b with
  | zero => exact h
  | succ n ih => exact ih (length_le_capacity_push b)

/-- Items for which there is room are pushed without growing. -/
theorem capacity_pushMany_of_le (h : b.length + n ≤ b.capacity) :
    (b.pushMany n).capacity = b.capacity := by
  induction n generalizing b with
  | zero => rfl
  | succ n ih =>
    rw [pushMany, push_of_lt (by omega)]
    exact ih (show b.length + 1 + n ≤ b.capacity by omega)

/-- A buffer grows to the least stage that is enough, and never shrinks. -/
theorem isLeast_capacity_pushMany (hstage : Stage b.capacity) (h : b.length ≤ b.capacity)
    (n : Nat) :
    IsLeast {r | Stage r ∧ b.capacity ≤ r ∧ b.length + n ≤ r} (b.pushMany n).capacity := by
  induction n generalizing b with
  | zero => exact ⟨⟨hstage, Nat.le_refl _, h⟩, fun r hr => hr.2.1⟩
  | succ n ih =>
    rw [pushMany]
    rcases Nat.lt_or_eq_of_le h with hroom | hfull
    · rw [push_of_lt hroom]
      have hrest := @ih ⟨b.capacity, b.length + 1⟩ hstage hroom
      rwa [Nat.add_assoc, Nat.add_comm 1 n] at hrest
    · rw [push_of_full hfull]
      obtain ⟨⟨hreached, hlow, henough⟩, hleast⟩ :=
        @ih ⟨grown b.capacity, b.capacity + 1⟩ hstage.grown (lt_grown b.capacity)
      have hcount : b.length + (n + 1) = b.capacity + 1 + n := by omega
      rw [hcount]
      refine ⟨⟨hreached, Nat.le_trans (Nat.le_of_lt (lt_grown _)) hlow, henough⟩, ?_⟩
      -- A stage that is enough lies above a full buffer, so the buffer does not pass it.
      rintro r ⟨hr, _, hneed⟩
      have habove : b.capacity < r := by omega
      exact hleast ⟨hr, hstage.grown_le hr habove, hneed⟩

/-- The room that so many items get in a buffer of their own. -/
def IsRoomFor (count room : Nat) : Prop :=
  if count = 0 then room = 0 else IsLeast {r | (∃ j, r = 4 * 2 ^ j) ∧ count ≤ r} room

theorem isRoomFor_iff {count room : Nat} :
    IsRoomFor count room ↔ IsLeast {r | Stage r ∧ count ≤ r} room := by
  rw [IsRoomFor]
  split
  · rename_i hzero
    have hleast : IsLeast {r | Stage r ∧ count ≤ r} 0 :=
      ⟨⟨stage_zero, Nat.le_of_eq hzero⟩, fun r _ => Nat.zero_le r⟩
    constructor
    · rintro rfl
      exact hleast
    · intro h
      exact h.unique hleast
  · rename_i hpos
    have hsame : {r | (∃ j, r = 4 * 2 ^ j) ∧ count ≤ r} = {r | Stage r ∧ count ≤ r} := by
      ext r
      refine and_congr_left fun hle => (or_iff_right ?_).symm
      rintro rfl
      omega
    rw [hsame]

theorem exists_isRoomFor (count : Nat) : ∃ room, IsRoomFor count room := by
  have hleast := isLeast_capacity_pushMany (b := empty) stage_zero (Nat.le_refl 0) count
  have hroom : IsLeast {r | Stage r ∧ count ≤ r} (empty.pushMany count).capacity := by
    simpa [empty] using hleast
  exact ⟨_, isRoomFor_iff.mpr hroom⟩

/-- An empty buffer on a stage keeps its capacity if that is enough, and otherwise ends
where a new buffer would. -/
theorem capacity_pushMany_eq_max (hstage : Stage b.capacity) (hempty : b.length = 0)
    {count room : Nat} (h : IsRoomFor count room) :
    (b.pushMany count).capacity = max b.capacity room := by
  obtain ⟨⟨hroom, henough⟩, hleast⟩ := isRoomFor_iff.mp h
  obtain ⟨⟨hreached, hlow, hholds⟩, hfirst⟩ :=
    isLeast_capacity_pushMany hstage (by omega) count
  rw [hempty, Nat.zero_add] at hholds
  apply Nat.le_antisymm
  · refine hfirst ⟨?_, Nat.le_max_left _ _, ?_⟩
    · rcases Nat.le_total b.capacity room with hle | hle
      · rwa [Nat.max_eq_right hle]
      · rwa [Nat.max_eq_left hle]
    · rw [hempty, Nat.zero_add]
      exact Nat.le_trans henough (Nat.le_max_right _ _)
  · exact Nat.max_le.mpr ⟨hlow, hleast ⟨hreached, hholds⟩⟩

end Buffer

/-! ## What using a pool leaves -/

namespace BufferPool

/-- The next buffer the pool lends, filled with so many items. -/
def filled (p : BufferPool) (n : Nat) : Buffer := p.lend.1.pushMany n

/-- What a pool is like between two uses.  Its idle buffer, if it has one, was cleared and
is not beyond the ceiling. -/
structure Orderly (p : BufferPool) : Prop where
  atMostOne : p.idle.length ≤ 1
  cleared : ∀ b ∈ p.idle, b.length = 0
  withinCeiling : ∀ b ∈ p.idle, b.capacity ≤ p.ceiling

variable {p : BufferPool} {n : Nat}

theorem orderly_withCeiling (ceiling : Nat) : (withCeiling ceiling).Orderly :=
  ⟨Nat.zero_le 1, by simp [withCeiling], by simp [withCeiling]⟩

theorem Orderly.idle_eq (h : p.Orderly) :
    p.idle = [] ∨ ∃ capacity ≤ p.ceiling, p.idle = [⟨capacity, 0⟩] := by
  have hone := h.atMostOne
  match hidle : p.idle with
  | [] => exact .inl rfl
  | [b] =>
    have hb : b ∈ p.idle := by simp [hidle]
    have hempty := h.cleared b hb
    exact .inr ⟨b.capacity, h.withinCeiling b hb, by rw [← hempty]⟩
  | _ :: _ :: _ => simp [hidle] at hone

theorem lend_of_nil (h : p.idle = []) : p.lend = (Buffer.empty.reserve p.initial, p) := by
  rw [lend, h]

theorem lend_of_cons {b : Buffer} {idle : List Buffer} (h : p.idle = b :: idle) :
    p.lend = (b.reserve p.initial, { p with idle }) := by
  rw [lend, h]

theorem Orderly.length_filled (h : p.Orderly) (n : Nat) : (p.filled n).length = n := by
  rcases h.idle_eq with hnil | ⟨capacity, _, hone⟩
  · rw [filled, lend_of_nil hnil, Buffer.length_pushMany, Buffer.length_reserve]
    exact Nat.zero_add n
  · rw [filled, lend_of_cons hone, Buffer.length_pushMany, Buffer.length_reserve]
    exact Nat.zero_add n

theorem Orderly.le_capacity_filled (h : p.Orderly) (n : Nat) : n ≤ (p.filled n).capacity := by
  have hlend : p.lend.1.length ≤ p.lend.1.capacity := by
    rcases h.idle_eq with hnil | ⟨capacity, _, hone⟩
    · rw [lend_of_nil hnil, Buffer.length_reserve]
      exact Nat.zero_le _
    · rw [lend_of_cons hone, Buffer.length_reserve]
      exact Nat.zero_le _
  calc n = (p.filled n).length := (h.length_filled n).symm
    _ ≤ (p.filled n).capacity := Buffer.length_le_capacity_pushMany hlend n

/-- The buffer that comes back is the only idle one then, unless it has grown beyond the
ceiling. -/
theorem Orderly.use_eq (h : p.Orderly) (n : Nat) :
    p.use n = { p with
      idle := if (p.filled n).capacity ≤ p.ceiling then [(p.filled n).clear] else [] } := by
  have hlent : p.lend.2 = { p with idle := [] } := by
    rcases h.idle_eq with hnil | ⟨capacity, _, hone⟩
    · rw [lend_of_nil hnil, ← hnil]
    · rw [lend_of_cons hone]
  show (p.lend.2).takeBack (p.filled n) = _
  rw [takeBack, hlent]
  by_cases hkept : (p.filled n).capacity ≤ p.ceiling
  · rw [if_neg (Nat.not_lt.mpr hkept), if_pos hkept]
  · rw [if_pos (Nat.lt_of_not_le hkept), if_neg hkept]

theorem Orderly.idle_use (h : p.Orderly) (n : Nat) :
    (p.use n).idle =
      if (p.filled n).capacity ≤ p.ceiling then [⟨(p.filled n).capacity, 0⟩] else [] := by
  rw [h.use_eq]
  rfl

theorem Orderly.use (h : p.Orderly) (n : Nat) : (p.use n).Orderly := by
  have hidle := h.idle_use n
  have hmem : ∀ b ∈ (p.use n).idle,
      b = ⟨(p.filled n).capacity, 0⟩ ∧ (p.filled n).capacity ≤ p.ceiling := by
    intro b hb
    rw [hidle] at hb
    split at hb
    · rename_i hkept
      exact ⟨List.mem_singleton.mp hb, hkept⟩
    · cases hb
  refine ⟨?_, fun b hb => ?_, fun b hb => ?_⟩
  · rw [hidle]
    split <;> simp
  · rw [(hmem b hb).1]
  · rw [(hmem b hb).1, ceiling_use]
    exact (hmem b hb).2

theorem Orderly.foresee (h : p.Orderly) (n : Nat) : (p.foresee n).Orderly :=
  ⟨h.atMostOne, h.cleared, h.withinCeiling⟩

/-- More items than the ceiling allows take the buffer beyond it. -/
theorem Orderly.idle_use_eq_nil (h : p.Orderly) (hn : p.ceiling < n) : (p.use n).idle = [] := by
  have hgrown := h.le_capacity_filled n
  rw [h.idle_use, if_neg (by omega)]

/-- A pool without room foreseen, whose buffers have come to what they are by pushing
alone. -/
structure Staged (p : BufferPool) : Prop extends p.Orderly where
  initial_eq : p.initial = 0
  stage : ∀ b ∈ p.idle, Buffer.Stage b.capacity

theorem staged_withCeiling (ceiling : Nat) : (withCeiling ceiling).Staged :=
  ⟨orderly_withCeiling ceiling, rfl, by simp [withCeiling]⟩

/-- What is lent is empty, on a stage, and not beyond the ceiling. -/
theorem Staged.lend (h : p.Staged) :
    p.lend.1.length = 0 ∧ Buffer.Stage p.lend.1.capacity ∧ p.lend.1.capacity ≤ p.ceiling := by
  rcases h.idle_eq with hnil | ⟨capacity, hle, hone⟩
  · rw [lend_of_nil hnil, h.initial_eq, Buffer.reserve_of_le (Nat.le_refl 0)]
    exact ⟨rfl, Buffer.stage_zero, Nat.zero_le _⟩
  · have hstage : Buffer.Stage capacity := h.stage ⟨capacity, 0⟩ (by simp [hone])
    rw [lend_of_cons hone, h.initial_eq, Buffer.reserve_of_le (Nat.zero_le capacity)]
    exact ⟨rfl, hstage, hle⟩

theorem Staged.use (h : p.Staged) (n : Nat) : (p.use n).Staged := by
  obtain ⟨hempty, hstage, _⟩ := h.lend
  refine ⟨h.toOrderly.use n, by rw [initial_use, h.initial_eq], fun b hb => ?_⟩
  rw [h.idle_use] at hb
  split at hb
  · rw [List.mem_singleton.mp hb]
    exact (Buffer.isLeast_capacity_pushMany hstage (by omega) n).1.1
  · cases hb

/-- What such a pool keeps after a use is decided by that use, since a buffer that was kept
before is within the ceiling whatever it has grown to. -/
theorem Staged.length_idle_use (h : p.Staged) {room : Nat} (hroom : Buffer.IsRoomFor n room) :
    (p.use n).idle.length = if room ≤ p.ceiling then 1 else 0 := by
  obtain ⟨hempty, hstage, hle⟩ := h.lend
  have hgrown : (p.filled n).capacity = max p.lend.1.capacity room :=
    Buffer.capacity_pushMany_eq_max hstage hempty hroom
  have hiff : (p.filled n).capacity ≤ p.ceiling ↔ room ≤ p.ceiling := by omega
  rw [h.idle_use]
  simp only [hiff]
  split <;> rfl

end BufferPool
end RouteTemplates
