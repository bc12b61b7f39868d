import RouteTemplates.Trie.Walk
import RouteTemplates.Proofs.Trie.ArenaInsertion

/-!
# A walk mirrors a trail

An arena that lays trees out is walked as the trees are.  Where the trail of the trees
takes a node, the walk takes the place at which the node stands, and both note the same
positions.  So a walk depends on the labels and the order of the cells and on nothing
else, wherever in the arena the cells are.

A walk is told how many levels it may go down, and it gets along with a level for each
node of the trees.
-/

namespace RouteTemplates

/-! ## Trails along ways -/

namespace Trail

variable {α : Type} {ways : α → List α} {level : List α} {t : Trail α}

/-- The first step is taken from the level, and each other one from the ways on from the
step before it. -/
structure Leads (ways : α → List α) (level : List α) (t : Trail α) : Prop where
  first_mem : ∀ s ∈ t.steps.head?, s.node ∈ level
  isChain : t.steps.IsChain fun s next => next.node ∈ ways s.node

theorem leads_stuck : (stuck : Trail α).Leads ways level := ⟨nofun, .nil⟩

theorem leads_arrival {finish : α} (h : finish ∈ level) : (arrival finish).Leads ways level where
  first_mem := by
    intro s hs
    obtain rfl := Option.some.inj hs
    exact h
  isChain := .singleton _

theorem Leads.cons {s : Step α} (h : t.Leads ways (ways s.node)) (hs : s.node ∈ level) :
    (t.cons s).Leads ways level where
  first_mem := by
    intro first hfirst
    obtain rfl := Option.some.inj hfirst
    exact hs
  isChain := List.isChain_cons.mpr ⟨h.first_mem, h.isChain⟩

end Trail

namespace Arena

/-- From the places on, `w` notes by places what `t` notes by nodes. -/
inductive Mirrors (a : Arena) : List Nat → Trail Nat → Trail Node → Prop
  | stuck {places : List Nat} : Mirrors a places .stuck .stuck
  | arrival {places : List Nat} {i : Nat} {n : Node} :
      i ∈ places → a.label? i = some n.label → Mirrors a places (.arrival i) (.arrival n)
  | step {places : List Nat} {s : Step Nat} {s' : Step Node} {w : Trail Nat} {t : Trail Node} :
      s.node ∈ places → s.map a.label? = s'.map (some ·.label) →
        Mirrors a (a.level (some s.node)) w t → Mirrors a places (w.cons s) (t.cons s')

variable {a : Arena} {places level : List Nat} {trees : List Node} {used : Multiset Nat}
variable {w : Trail Nat} {t : Trail Node}

theorem Mirrors.mono (h : Mirrors a places w t) (hsub : places ⊆ level) :
    Mirrors a level w t := by
  cases h with
  | stuck => exact .stuck
  | arrival hi hlabel => exact .arrival (hsub hi) hlabel
  | step hs hlabel hbelow => exact .step (hsub hs) hlabel hbelow

/-! ## One level -/

theorem endsHere_eq {i : Nat} {children : List Node}
    (h : LaysOut a (a.level (some i)) children used) : a.endsHere i = Node.endsHere children := by
  rw [endsHere]
  generalize a.level (some i) = places at h
  cases h with
  | nil => rfl
  | @cons j label _ _ _ _ _ hlabel _ _ hmore =>
    cases hmore with
    | nil =>
      dsimp only
      rw [hlabel]
      cases label <;> rfl
    | cons _ _ _ _ => cases label <;> rfl

/-- Nothing bounds a value behind a position that is not there. -/
theorem enterBounding?_eq_none {input : Text} {position : Nat}
    (hdrop : Text.dropBytes? position input = none) (trees : List Node) :
    Node.enterBounding? input trees position = none := by
  induction trees with
  | nil => rw [Node.enterBounding?]
  | cons n more ih =>
    obtain ⟨label, children⟩ := n
    have hnone : (Node.mk label children).enterAhead? input position = none := by
      cases label <;> simp [Node.enterAhead?, hdrop]
    rw [Node.enterBounding?, hnone, ih]

section Level

variable {input : Text} {below : List Nat → Nat → Trail Nat} {depth : Nat}

/-- `below` mirrors the trails of trees with at most so many nodes. -/
def MirrorsBelow (a : Arena) (input : Text) (below : List Nat → Nat → Trail Nat)
    (depth : Nat) : Prop :=
  ∀ {places : List Nat} {trees : List Node} {used : Multiset Nat} (position : Nat),
    LaysOut a places trees used → Node.totalSize trees ≤ depth →
      Mirrors a places (below places position) (Node.trail input trees position)

/-- The value has the width it has for the trail, and behind it the walk goes on from the place
as the trail does. -/
structure MirrorsValue (a : Arena) (below : List Nat → Nat → Trail Nat) (places : List Nat)
    (position : Nat) (found : Nat × Nat) (bound : Nat × Trail Node) : Prop where
  width_eq : found.2 = bound.1
  mirrors : Mirrors a places (a.passBoundary below found.1 (position + found.2)) bound.2

theorem mirrors_passed {i position : Nat} {label : Segment} {children : List Node}
    (hbelow : MirrorsBelow a input below depth) (hlabel : a.label? i = some label)
    (hi : i ∈ places) (h : LaysOut a (a.level (some i)) children used)
    (hsize : Node.totalSize children ≤ depth) :
    Mirrors a places ((below (a.level (some i)) position).cons (.passed i))
      ((Node.trail input children position).cons (.passed (.mk label children))) :=
  .step hi (congrArg Step.passed hlabel) (hbelow position h hsize)

theorem rel_boundary? {position : Nat} {rest : Text} (hbelow : MirrorsBelow a input below depth)
    (hdrop : Text.dropBytes? position input = some rest) (h : LaysOut a places trees used)
    (hsub : places ⊆ level) (hsize : Node.totalSize trees ≤ depth) :
    Option.Rel (MirrorsValue a below level position) (a.boundary? rest places)
      (Node.enterBounding? input trees position) := by
  induction h with
  | nil =>
    rw [boundary?, Node.enterBounding?]
    exact .none
  | @cons i label children _ _ places trees hlabel _ hchildren _ _ ih =>
    rw [Node.totalSize, Node.size] at hsize
    obtain ⟨hi, hsubMore⟩ := List.cons_subset.mp hsub
    have hmore := ih hsubMore (by omega)
    rw [boundary?, Node.enterBounding?, hlabel]
    cases label with
    | literal role mark =>
      rw [Node.enterAhead?, hdrop, Option.bind_some]
      dsimp only
      cases Text.find? mark rest with
      | some width =>
        refine .some ⟨rfl, ?_⟩
        rw [passBoundary, hlabel]
        exact mirrors_passed hbelow hlabel hi hchildren (by omega)
      | none => exact hmore
    | finish name =>
      rw [Node.enterAhead?, hdrop, Option.map_some]
      refine .some ⟨rfl, ?_⟩
      rw [passBoundary, hlabel]
      exact .arrival hi hlabel
    | start | slot _ | filled _ _ =>
      rw [Node.enterAhead?]
      exact hmore

theorem rel_enter? {i : Nat} {label : Segment} {children : List Node} (last : Bool)
    (position : Nat) (hbelow : MirrorsBelow a input below depth) (hlabel : a.label? i = some label)
    (h : LaysOut a (a.level (some i)) children used) (hsize : Node.totalSize children ≤ depth) :
    Option.Rel (Mirrors a [i]) (a.enter? input below i last position)
      ((Node.mk label children).enter? input last position) := by
  have hi : i ∈ [i] := List.mem_singleton_self i
  rw [enter?, hlabel]
  cases label with
  | start => exact .some (mirrors_passed hbelow hlabel hi h hsize)
  | finish name =>
    rw [Node.enter?]
    dsimp only
    split
    · exact .some (.arrival hi hlabel)
    · exact .none
  | literal role text =>
    rw [Node.enter?, endsHere_eq h]
    dsimp only
    split
    · exact .none
    · split
      · exact .none
      · split
        · exact .some (mirrors_passed hbelow hlabel hi h hsize)
        · exact .none
  | slot written =>
    rw [Node.enter?]
    cases hdrop : Text.dropBytes? position input with
    | none =>
      rw [enterBounding?_eq_none hdrop]
      exact .none
    | some rest =>
      rw [Option.bind_some]
      have hbounded := rel_boundary? hbelow hdrop h (List.Subset.refl _) hsize
      generalize a.boundary? rest (a.level (some i)) = found at hbounded ⊢
      generalize Node.enterBounding? input children position = bound at hbounded ⊢
      cases hbounded with
      | none => exact .none
      | @some found bound hvalue =>
        obtain ⟨next, width⟩ := found
        obtain ⟨width', t⟩ := bound
        obtain ⟨hwidth, hmirrors⟩ := hvalue
        dsimp only at hwidth hmirrors ⊢
        subst hwidth
        split
        · exact .none
        · exact .some
            (.step hi (congrArg (Step.captured · position (position + width)) hlabel) hmirrors)
  | filled _ _ =>
    rw [Node.enter?]
    exact .none

theorem mirrors_enterFirst (position : Nat) (hbelow : MirrorsBelow a input below depth)
    (h : LaysOut a places trees used) (hsize : Node.totalSize trees ≤ depth + 1) :
    Mirrors a places (a.enterFirst input below position places)
      (Node.trail input trees position) := by
  induction h with
  | nil =>
    rw [enterFirst, Node.trail]
    exact .stuck
  | @cons i label children _ _ places trees hlabel _ hchildren hrest _ ih =>
    rw [Node.totalSize, Node.size] at hsize
    have hlast : places.isEmpty = trees.isEmpty := by
      cases hrest <;> rfl
    have hi := rel_enter? trees.isEmpty position hbelow hlabel hchildren (by omega)
    have hmore := ih (by omega)
    rw [enterFirst, Node.trail, hlast]
    generalize a.enter? input below i trees.isEmpty position = entered at hi ⊢
    generalize (Node.mk label children).enter? input trees.isEmpty position = taken at hi ⊢
    cases hi with
    | some h => exact h.mono (by simp)
    | none => exact hmore.mono (List.subset_cons_self i places)

end Level

/-! ## All levels -/

theorem mirrors_walkFrom (a : Arena) (input : Text) (depth : Nat) :
    MirrorsBelow a input (a.walkFrom input depth) depth := by
  induction depth with
  | zero =>
    intro places trees used position h hsize
    cases h with
    | nil =>
      rw [walkFrom, Node.trail]
      exact .stuck
    | cons _ _ _ _ =>
      rw [Node.totalSize, Node.size] at hsize
      omega
  | succ depth ih =>
    intro places trees used position h hsize
    rw [walkFrom]
    exact mirrors_enterFirst position ih h hsize

theorem Holds.mirrors_walk (h : a.Holds trees) (input : Text) :
    Mirrors a a.roots (a.walk input) (Node.trail input trees 0) :=
  mirrors_walkFrom a input a.cells.length 0 h (Nat.le_of_eq h.length_cells.symm)

/-! ## What is read off -/

theorem Mirrors.arrived_eq (h : Mirrors a places w t) : w.arrived = t.arrived := by
  induction h with
  | stuck => rfl
  | arrival _ _ => rfl
  | step _ _ _ ih => exact ih

theorem Mirrors.map_steps (h : Mirrors a places w t) :
    w.steps.map (Step.map a.label?) = t.steps.map (Step.map (some ·.label)) := by
  induction h with
  | stuck => rfl
  | arrival _ hlabel => exact congrArg (fun label? => [Step.passed label?]) hlabel
  | @step _ s s' w t _ hlabel _ ih =>
    show s.map a.label? :: w.steps.map _ = s'.map (some ·.label) :: t.steps.map _
    rw [hlabel, ih]

/-- What a step is read back as depends on the label only. -/
theorem Mirrors.map_readBack? (h : Mirrors a places w t) (input : Text) :
    w.steps.map (Step.readBack? a.label? input) = t.steps.map (Step.segment? input) := by
  have hread : ∀ {α : Type} (label? : α → Option Segment),
      Step.readBack? id input ∘ Step.map label? = Step.readBack? label? input := by
    intro α label?
    funext s
    cases s <;> rfl
  have hsteps := congrArg (List.map (Step.readBack? id input)) h.map_steps
  rw [List.map_map, List.map_map, hread, hread] at hsteps
  exact hsteps

theorem Mirrors.leads (h : Mirrors a places w t) :
    w.Leads (fun i => a.level (some i)) places := by
  induction h with
  | stuck => exact Trail.leads_stuck
  | arrival hi _ => exact Trail.leads_arrival hi
  | step hs _ _ ih => exact ih.cons hs

end Arena
end RouteTemplates
