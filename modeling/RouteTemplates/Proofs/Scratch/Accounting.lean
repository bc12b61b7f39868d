import RouteTemplates.Proofs.Scratch.Growth
import RouteTemplates.Proofs.Trie.Trail

/-!
# Keeping account of scratch space

A catalog is used by performing operations on it, in any number and order.  Whatever they
are, the room foreseen for a descent follows the longest template up to the ceiling, and
each pool keeps one cleared buffer at most that is not beyond the ceiling.

This needs nothing of the templates, so a run may insert and look up any of them.  Each
history is such a run, and what is shown of the scratch space after a run holds there too.
-/

namespace RouteTemplates

inductive Operation
  | add (name text : Text)
  | insert (template : Template)
  | resolve (input : Text)
  | lookup (template : Template) (input : Text)
  deriving DecidableEq, Repr

namespace Operation

def registers : Operation → Bool
  | .add _ _ | .insert _ => true
  | .resolve _ | .lookup _ _ => false

def resolves : Operation → Bool
  | .resolve _ => true
  | .add _ _ | .insert _ | .lookup _ _ => false

end Operation

namespace Catalog

/-- The catalog that an operation leaves. -/
def perform (c : Catalog) : Operation → Catalog
  | .add name text => c.afterAdd name text
  | .insert template => c.insert template
  | .resolve input => (c.resolve input).2
  | .lookup template input => (c.lookup template input).2

def run (c : Catalog) (ops : List Operation) : Catalog := ops.foldl perform c

theorem run_append (c : Catalog) (before after : List Operation) :
    c.run (before ++ after) = (c.run before).run after := List.foldl_append

/-- What each operation of a run keeps, the run keeps. -/
theorem run_induction {motive : Catalog → Prop} {ops : List Operation}
    (step : ∀ op ∈ ops, ∀ c, motive c → motive (c.perform op)) {c : Catalog} (h : motive c) :
    motive (c.run ops) := by
  induction ops generalizing c with
  | nil => exact h
  | cons op ops ih =>
    have hmore : ∀ o ∈ ops, ∀ c, motive c → motive (c.perform o) := fun o ho =>
      step o (List.mem_cons_of_mem op ho)
    exact ih hmore (step op List.mem_cons_self c h)

theorem afterAdd_of_ok {c c' : Catalog} {name text : Text} {t : Template}
    (h : c.add name text = .ok (t, c')) : c.afterAdd name text = c' := by
  rw [afterAdd, h]

/-- Adding a text inserts a template or, if the text has a defect, changes nothing. -/
theorem afterAdd_eq (c : Catalog) (name text : Text) :
    c.afterAdd name text = c ∨ ∃ t, c.afterAdd name text = c.insert t := by
  cases hadd : c.add name text with
  | error defect =>
    left
    rw [afterAdd, hadd]
  | ok added =>
    obtain ⟨t, c'⟩ := added
    right
    exact ⟨t, by rw [afterAdd_of_ok hadd, (add_eq_ok hadd).2]⟩

/-- What inserting keeps, registering keeps. -/
theorem perform_of_registers {motive : Catalog → Prop}
    (insert : ∀ c t, motive c → motive (Catalog.insert c t)) {op : Operation}
    (hop : op.registers) {c : Catalog} (h : motive c) : motive (c.perform op) := by
  cases op with
  | add name text =>
    show motive (c.afterAdd name text)
    rcases c.afterAdd_eq name text with heq | ⟨t, heq⟩
    · rwa [heq]
    · rw [heq]
      exact insert c t h
  | insert t => exact insert c t h
  | resolve _ => cases hop
  | lookup _ _ => cases hop

/-- A history is a run. -/
theorem Registered.exists_run {c : Catalog} {ts : List Template} (h : c.Registered ts) :
    ∃ d ceilings ops, c = (Catalog.new d ceilings).run ops := by
  refine h.induction (motive := fun c _ => ∃ d ceilings ops, c = (Catalog.new d ceilings).run ops)
    ?new ?add ?insert ?resolve ?lookup
  case new =>
    intro d ceilings
    exact ⟨d, ceilings, [], rfl⟩
  case add =>
    rintro _ c' _ name text _ ⟨d, ceilings, ops, rfl⟩ ha
    refine ⟨d, ceilings, ops ++ [.add name text], ?_⟩
    rw [run_append]
    exact (afterAdd_of_ok ha).symm
  case insert =>
    rintro _ _ t ⟨d, ceilings, ops, rfl⟩ _
    exact ⟨d, ceilings, ops ++ [.insert t], by rw [run_append]; rfl⟩
  case resolve =>
    rintro _ _ input ⟨d, ceilings, ops, rfl⟩
    exact ⟨d, ceilings, ops ++ [.resolve input], by rw [run_append]; rfl⟩
  case lookup =>
    rintro _ _ t input ⟨d, ceilings, ops, rfl⟩
    exact ⟨d, ceilings, ops ++ [.lookup t input], by rw [run_append]; rfl⟩

/-! ## The account -/

/-- The scratch space of a catalog is in order under the ceilings. -/
structure Accounted (ceilings : Ceilings) (c : Catalog) : Prop where
  stepsCeiling : c.scratch.steps.ceiling = ceilings.steps
  valuesCeiling : c.scratch.values.ceiling = ceilings.values
  initial_eq : c.scratch.steps.initial = min c.trie.longest c.scratch.steps.ceiling
  steps : c.scratch.steps.Orderly
  values : c.scratch.values.Staged

variable {ceilings : Ceilings} {c : Catalog}

theorem initial_insert (t : Template)
    (h : c.scratch.steps.initial = min c.trie.longest c.scratch.steps.ceiling) :
    (c.insert t).scratch.steps.initial =
      min (c.insert t).trie.longest (c.insert t).scratch.steps.ceiling := by
  have hlongest : c.trie.longest ≤ (c.trie.insert t).longest := by
    rw [Trie.insert]
    split <;> exact Nat.le_max_left _ _
  simp only [Catalog.insert, BufferPool.foresee, h]
  omega

theorem accounted_new (d : Delimiters) (ceilings : Ceilings) :
    (new d ceilings).Accounted ceilings where
  stepsCeiling := rfl
  valuesCeiling := rfl
  initial_eq := (Nat.zero_min _).symm
  steps := BufferPool.orderly_withCeiling ceilings.steps
  values := BufferPool.staged_withCeiling ceilings.values

theorem Accounted.insert (h : c.Accounted ceilings) (t : Template) :
    (c.insert t).Accounted ceilings where
  stepsCeiling := h.stepsCeiling
  valuesCeiling := h.valuesCeiling
  initial_eq := initial_insert t h.initial_eq
  steps := h.steps.foresee _
  values := h.values

theorem Accounted.resolve (h : c.Accounted ceilings) (input : Text) :
    (c.resolve input).2.Accounted ceilings where
  stepsCeiling := (BufferPool.ceiling_use _ _).trans h.stepsCeiling
  valuesCeiling := h.valuesCeiling
  initial_eq := by simpa [Catalog.resolve] using h.initial_eq
  steps := h.steps.use _
  values := h.values

theorem Accounted.lookup (h : c.Accounted ceilings) (t : Template) (input : Text) :
    (c.lookup t input).2.Accounted ceilings where
  stepsCeiling := h.stepsCeiling
  valuesCeiling := (BufferPool.ceiling_use _ _).trans h.valuesCeiling
  initial_eq := h.initial_eq
  steps := h.steps
  values := h.values.use _

theorem Accounted.perform (h : c.Accounted ceilings) (op : Operation) :
    (c.perform op).Accounted ceilings := by
  cases op with
  | add name text => exact perform_of_registers (fun _ t hc => hc.insert t) rfl h
  | insert t => exact h.insert t
  | resolve input => exact h.resolve input
  | lookup t input => exact h.lookup t input

theorem accounted_run (d : Delimiters) (ceilings : Ceilings) (ops : List Operation) :
    ((new d ceilings).run ops).Accounted ceilings :=
  run_induction (fun op _ _ h => h.perform op) (accounted_new d ceilings)

/-- The room foreseen for a descent is what the longest template needs, up to the
ceiling. -/
theorem Registered.initial_eq {ts : List Template} (h : c.Registered ts) :
    c.scratch.steps.initial = min c.trie.longest c.scratch.steps.ceiling := by
  obtain ⟨d, ceilings, ops, rfl⟩ := h.exists_run
  exact (accounted_run d ceilings ops).initial_eq

/-- After any run the room foreseen for a descent is that of the longest template, up to
the ceiling.  At most one buffer is idle in each pool, it is empty, and it is not beyond
the ceiling.  A descent notes as many steps as it takes segments, and if these are more
than the ceiling allows no buffer is left idle, whether it arrives or not. -/
theorem run_bounded (d : Delimiters) (ceilings : Ceilings) (ops : List Operation) :
    let c := (new d ceilings).run ops
    c.scratch.steps.initial = min c.trie.longest ceilings.steps ∧
      c.scratch.steps.idle.length ≤ 1 ∧ c.scratch.values.idle.length ≤ 1 ∧
      (∀ b ∈ c.scratch.steps.idle, b.length = 0 ∧ b.capacity ≤ ceilings.steps) ∧
      (∀ b ∈ c.scratch.values.idle, b.length = 0 ∧ b.capacity ≤ ceilings.values) ∧
      ∀ input, (c.trie.trail input).steps.length = (c.trie.descend input).taken.length ∧
        (ceilings.steps < (c.trie.trail input).steps.length →
          (c.resolve input).2.scratch.steps.idle = []) := by
  intro c
  have h : c.Accounted ceilings := accounted_run d ceilings ops
  refine ⟨?_, h.steps.atMostOne, h.values.atMostOne, fun b hb => ?_, fun b hb => ?_,
    fun input => ⟨c.trie.length_steps_trail input, fun hlong => ?_⟩⟩
  · rw [h.initial_eq, h.stepsCeiling]
  · rw [← h.stepsCeiling]
    exact ⟨h.steps.cleared b hb, h.steps.withinCeiling b hb⟩
  · rw [← h.valuesCeiling]
    exact ⟨h.values.cleared b hb, h.values.withinCeiling b hb⟩
  · rw [c.trie.length_steps_trail, ← h.stepsCeiling] at hlong
    exact h.steps.idle_use_eq_nil hlong

/-- A ceiling of four steps, a template of seven segments, and a descent of six steps that
fails at the last literal. -/
theorem run_bounded_of_long :
    let pages : Template := .counted
      [.start, .literal .plain ['/'], .slot ['<', 'u', '>'], .literal .plain ['/'],
        .slot ['<', 'p', '>'], .literal .plain ['/'], .finish none]
    let c := (new .braces ⟨4, 32⟩).run [.insert pages, .resolve ['x'], .lookup pages ['/']]
    c.scratch.steps.initial = 4 ∧ c.scratch.steps.idle = [⟨4, 0⟩] ∧
      4 < (c.trie.trail ['/', 'a', '/', 'b', '/', 'c']).steps.length ∧
      (c.trie.trail ['/', 'a', '/', 'b', '/', 'c']).arrived = false ∧
      (c.resolve ['/', 'a', '/', 'b', '/', 'c']).2.scratch.steps.idle = [] := by
  intro pages c
  obtain ⟨hinitial, _, _, _, _, hlong⟩ := run_bounded .braces ⟨4, 32⟩
    [.insert pages, .resolve ['x'], .lookup pages ['/']]
  have hsteps : 4 < (c.trie.trail ['/', 'a', '/', 'b', '/', 'c']).steps.length := by decide
  exact ⟨hinitial, by decide, hsteps, by decide, (hlong _).2 hsteps⟩

end Catalog
end RouteTemplates
