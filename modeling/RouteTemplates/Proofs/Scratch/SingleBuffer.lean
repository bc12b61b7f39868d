import RouteTemplates.Proofs.Scratch.Accounting
import RouteTemplates.Proofs.Trie.Trail

/-!
# One buffer for all descents

A descent takes no more steps than the longest template has segments, also one that fails,
because what it has taken is a path of the trie.  So in a catalog that is filled before
anything is resolved, the room foreseen is enough from the first descent on: the buffer
made for it is kept, lent again for every other one, and never has to grow.

The ceiling has to allow a buffer of that room, or it would not be kept.  With no template
at all no room is foreseen, and the first buffer stays without any.
-/

namespace RouteTemplates

open Node

/-! ## How long paths are -/

namespace Trie

/-- No path is longer than `longest`, and a template that counts has a path. -/
structure Measured (t : Trie) : Prop where
  le_longest : ∀ path ∈ pathsOf t.roots, path.length ≤ t.longest
  longest_pos : 0 < t.size → 0 < t.longest

theorem measured_empty : Trie.empty.Measured :=
  ⟨fun _ hpath => absurd hpath List.not_mem_nil, fun hsize => absurd hsize (Nat.lt_irrefl 0)⟩

theorem Measured.insert {t : Trie} (h : t.Measured) (template : Template) :
    (t.insert template).Measured := by
  rw [Trie.insert]
  split
  · refine ⟨fun path hpath => ?_, fun hsize => ?_⟩
    · exact Nat.le_trans (h.le_longest path hpath) (Nat.le_max_left _ _)
    · exact Nat.lt_of_lt_of_le (h.longest_pos hsize) (Nat.le_max_left _ _)
  · rename_i hnew
    refine ⟨fun path hpath => ?_, fun _ => ?_⟩
    · rcases mem_pathsOf_graft.mp hpath with hold | ⟨_, hprefix⟩
      · exact Nat.le_trans (h.le_longest path hold) (Nat.le_max_left _ _)
      · exact Nat.le_trans hprefix.length_le (Nat.le_max_right _ _)
    · -- The empty row is held by every trie.
      have hne : template.unfilled.segments ≠ [] := fun hnil => hnew (by rw [hnil]; rfl)
      exact Nat.lt_of_lt_of_le (List.length_pos_of_ne_nil hne) (Nat.le_max_right _ _)

theorem Measured.length_taken_le {t : Trie} (h : t.Measured) (input : Text) :
    (t.descend input).taken.length ≤ t.longest := by
  rcases (t.follows_trail input).unfilled_mem_pathsOf with hnil | hpath
  · rw [hnil]
    exact Nat.zero_le _
  · simpa using h.le_longest _ hpath

end Trie

/-! ## The buffer that is kept -/

namespace BufferPool

variable {p : BufferPool} {n : Nat}

/-- The first buffer and every later one has this capacity, if it was kept in between. -/
theorem capacity_filled_of_settled (hidle : p.idle = [] ∨ p.idle = [⟨max 4 p.initial, 0⟩])
    (hinitial : 0 < p.initial) (hn : n ≤ p.initial) :
    (p.filled n).capacity = max 4 p.initial := by
  have hlent : p.lend.1 = ⟨max 4 p.initial, 0⟩ := by
    rcases hidle with hnil | hone
    · have hroom : ¬ Buffer.empty.length + p.initial ≤ Buffer.empty.capacity := by
        show ¬ 0 + p.initial ≤ 0
        omega
      have hcapacity : max (max (2 * 0) (0 + p.initial)) 4 = max 4 p.initial := by omega
      rw [lend_of_nil hnil, Buffer.reserve, if_neg hroom]
      exact congrArg (Buffer.mk · 0) hcapacity
    · rw [lend_of_cons hone]
      apply Buffer.reserve_of_le
      show 0 + p.initial ≤ max 4 p.initial
      omega
  have hroom : 0 + n ≤ max 4 p.initial := by omega
  rw [filled, hlent]
  exact Buffer.capacity_pushMany_of_le hroom

theorem Orderly.idle_use_of_settled (h : p.Orderly)
    (hidle : p.idle = [] ∨ p.idle = [⟨max 4 p.initial, 0⟩]) (hinitial : 0 < p.initial)
    (hn : n ≤ p.initial) (hceiling : max 4 p.initial ≤ p.ceiling) :
    (p.use n).idle = [⟨max 4 p.initial, 0⟩] := by
  rw [h.idle_use, capacity_filled_of_settled hidle hinitial hn, if_pos hceiling]

end BufferPool

namespace Catalog

variable {c : Catalog} {op : Operation} {ceilings : Ceilings}

theorem trie_perform (hop : op.registers = false) : (c.perform op).trie = c.trie := by
  cases op with
  | add _ _ => cases hop
  | insert _ => cases hop
  | resolve _ => rfl
  | lookup _ _ => rfl

theorem measured_run (d : Delimiters) (ceilings : Ceilings) (ops : List Operation) :
    ((new d ceilings).run ops).trie.Measured := by
  refine run_induction (motive := fun c => c.trie.Measured) ?_ Trie.measured_empty
  intro op _ c h
  cases hop : op.registers with
  | true =>
    exact perform_of_registers (motive := fun c => c.trie.Measured) (fun _ t hc => hc.insert t)
      hop h
  | false =>
    rw [trie_perform hop]
    exact h

/-- Only resolving uses the buffers for descents. -/
theorem idle_perform (hop : op.resolves = false) :
    (c.perform op).scratch.steps.idle = c.scratch.steps.idle := by
  cases op with
  | add _ _ =>
    exact perform_of_registers
      (motive := fun c' => c'.scratch.steps.idle = c.scratch.steps.idle) (fun _ _ h => h) rfl rfl
  | insert _ => rfl
  | resolve _ => cases hop
  | lookup _ _ => rfl

/-- A catalog with this trie, in which no buffer is idle, or just the one that is made for
the first descent. -/
structure Settled (ceilings : Ceilings) (t : Trie) (c : Catalog) : Prop where
  accounted : c.Accounted ceilings
  trie_eq : c.trie = t
  idle : c.scratch.steps.idle = [] ∨ c.scratch.steps.idle = [⟨max 4 t.longest, 0⟩]

variable {t : Trie}

/-- Every descent leaves the one buffer. -/
theorem Settled.idle_resolve (h : c.Settled ceilings t) (ht : t.Measured) (hsize : 0 < t.size)
    (hceiling : max 4 t.longest ≤ ceilings.steps) (input : Text) :
    (c.resolve input).2.scratch.steps.idle = [⟨max 4 t.longest, 0⟩] := by
  have hinitial : c.scratch.steps.initial = t.longest := by
    rw [h.accounted.initial_eq, h.accounted.stepsCeiling, h.trie_eq]
    omega
  have hidle := h.idle
  have hpos := ht.longest_pos hsize
  have htaken : (c.trie.descend input).taken.length ≤ t.longest := by
    rw [h.trie_eq]
    exact ht.length_taken_le input
  rw [← h.accounted.stepsCeiling] at hceiling
  rw [← hinitial] at hidle hpos htaken hceiling ⊢
  exact h.accounted.steps.idle_use_of_settled hidle hpos htaken hceiling

theorem Settled.perform (h : c.Settled ceilings t) (ht : t.Measured) (hsize : 0 < t.size)
    (hceiling : max 4 t.longest ≤ ceilings.steps) (hop : op.registers = false) :
    (c.perform op).Settled ceilings t := by
  refine ⟨h.accounted.perform op, (trie_perform hop).trans h.trie_eq, ?_⟩
  cases hresolves : op.resolves with
  | false =>
    rw [idle_perform hresolves]
    exact h.idle
  | true =>
    cases op with
    | resolve input => exact .inr (h.idle_resolve ht hsize hceiling input)
    | add _ _ | insert _ | lookup _ _ => cases hresolves

/-- In a catalog that is filled before anything is resolved, no descent notes more steps
than the longest template has segments, whether it arrives or not, and after each of them
one buffer is idle, which has the capacity it was made with. -/
theorem run_singleBuffer (d : Delimiters) (ceilings : Ceilings) (fill uses : List Operation)
    (hfill : ∀ op ∈ fill, op.resolves = false) (huses : ∀ op ∈ uses, op.registers = false) :
    let c := (new d ceilings).run fill
    0 < c.trie.size → max 4 c.trie.longest ≤ ceilings.steps → ∀ input,
      ((c.run uses).trie.trail input).steps.length =
          ((c.run uses).trie.descend input).taken.length ∧
        ((c.run uses).trie.trail input).steps.length ≤ c.trie.longest ∧
        (c.run (uses ++ [.resolve input])).scratch.steps.idle = [⟨max 4 c.trie.longest, 0⟩] := by
  intro c hsize hceiling input
  have hmeasured : c.trie.Measured := measured_run d ceilings fill
  have hnone : c.scratch.steps.idle = [] :=
    run_induction (motive := fun c => c.scratch.steps.idle = [])
      (fun op hop _ hidle => (idle_perform (hfill op hop)).trans hidle) rfl
  have hstart : c.Settled ceilings c.trie := ⟨accounted_run d ceilings fill, rfl, .inl hnone⟩
  have hsettled : (c.run uses).Settled ceilings c.trie :=
    run_induction (fun op hop _ h => h.perform hmeasured hsize hceiling (huses op hop)) hstart
  refine ⟨Trie.length_steps_trail _ input, ?_, ?_⟩
  · rw [Trie.length_steps_trail, hsettled.trie_eq]
    exact hmeasured.length_taken_le input
  · rw [run_append]
    exact hsettled.idle_resolve hmeasured hsize hceiling input

/-- Two templates, the longer one of six segments, and a descent that fails. -/
theorem run_singleBuffer_of_two :
    let page : Template := .counted
      [.start, .literal .plain ['/', 'p'], .slot ['<', 'n', '>'], .literal .plain ['/', 'v'],
        .slot ['<', 'v', '>'], .finish none]
    let root : Template := .counted [.start, .literal .plain ['/'], .finish none]
    let fill : List Operation := [.insert page, .lookup page ['/'], .insert root]
    let uses : List Operation := [.resolve ['/'], .lookup root ['/'], .resolve ['/', 'q']]
    let c := (new .braces .standard).run fill
    0 < c.trie.size ∧ max 4 c.trie.longest = 6 ∧
      (c.trie.resolve? ['/', 'p', '1']) = none ∧
      (c.run (uses ++ [.resolve ['/', 'p', '1']])).scratch.steps.idle = [⟨6, 0⟩] := by
  intro page root fill uses c
  have hsize : 0 < c.trie.size := by decide
  obtain ⟨_, _, hidle⟩ := run_singleBuffer .braces .standard fill uses (by decide) (by decide) hsize
    (by decide) ['/', 'p', '1']
  exact ⟨hsize, by decide, by decide, hidle⟩

end Catalog
end RouteTemplates
