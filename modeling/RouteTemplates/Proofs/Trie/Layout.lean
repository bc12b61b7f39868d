import Mathlib.Order.Interval.Finset.Nat
import RouteTemplates.Trie.Arena
import RouteTemplates.Trie.Insertion

/-!
# Tries laid out in an arena

An arena holds a trie when its cells, followed from the roots, spell out the
trees.  The relation keeps account of the cells that the trees take up, each as
often as it is met.  Trees that share no cell can then be changed without regard
to each other, and when each cell is met once the children make a forest.
-/

namespace RouteTemplates
namespace Arena

/-! ## Cells and levels -/

theorem cell_of_label? {a : Arena} {i : Nat} {label : Segment} (h : a.label? i = some label) :
    a.cells[i]? = some ⟨label, a.level (some i)⟩ := by
  obtain ⟨c, hc, rfl⟩ := Option.map_eq_some_iff.mp h
  rw [level, hc]
  rfl

theorem lt_of_label? {a : Arena} {i : Nat} {label : Segment} (h : a.label? i = some label) :
    i < a.cells.length :=
  (List.getElem?_eq_some_iff.mp (cell_of_label? h)).1

def HasLevel (a : Arena) (parent : Option Nat) : Prop := ∀ i ∈ parent, i < a.cells.length

@[simp]
theorem length_setLevel (a : Arena) (places : List Nat) (parent : Option Nat) :
    (a.setLevel places parent).cells.length = a.cells.length := by
  cases parent <;> simp [setLevel]

@[simp]
theorem label?_setLevel (a : Arena) (places : List Nat) (parent : Option Nat) (i : Nat) :
    (a.setLevel places parent).label? i = a.label? i := by
  cases parent with
  | none => rfl
  | some k =>
    simp only [label?, setLevel, List.getElem?_modify, Option.map_eq_map, Option.map_map]
    refine congrArg (Option.map · _) (funext fun c => ?_)
    simp only [Function.comp_apply]
    split <;> rfl

theorem level_setLevel_self {a : Arena} {parent : Option Nat} (h : a.HasLevel parent)
    (places : List Nat) : (a.setLevel places parent).level parent = places := by
  cases parent with
  | none => rfl
  | some k => simp [level, setLevel, List.getElem?_eq_getElem (h k rfl)]

theorem level_setLevel_of_ne {a : Arena} {parent other : Option Nat} (h : other ≠ parent)
    (places : List Nat) : (a.setLevel places parent).level other = a.level other := by
  cases parent with
  | none =>
    cases other with
    | none => exact absurd rfl h
    | some k => rfl
  | some k =>
    cases other with
    | none => rfl
    | some j =>
      have hne : k ≠ j := fun heq => h (congrArg some heq.symm)
      simp [level, setLevel, hne]

@[simp]
theorem length_extend (a : Arena) (label : Segment) :
    (a.extend label).cells.length = a.cells.length + 1 := by
  simp [extend]

theorem label?_extend_of_lt {a : Arena} {i : Nat} (h : i < a.cells.length) (label : Segment) :
    (a.extend label).label? i = a.label? i := by
  rw [label?, label?, extend, List.getElem?_append_left h]

theorem label?_extend_self (a : Arena) (label : Segment) :
    (a.extend label).label? a.cells.length = some label := by
  simp [label?, extend]

theorem level_extend_of_hasLevel {a : Arena} {parent : Option Nat} (h : a.HasLevel parent)
    (label : Segment) : (a.extend label).level parent = a.level parent := by
  cases parent with
  | none => rfl
  | some k => rw [level, level, extend, List.getElem?_append_left (h k rfl)]

theorem level_extend_self (a : Arena) (label : Segment) :
    (a.extend label).level (some a.cells.length) = [] := by
  simp [level, extend]

/-! ## Layouts -/

/-- The trees stand at the places, and `used` are the cells they take up.  A child
stands behind its parent. -/
inductive LaysOut (a : Arena) : List Nat → List Node → Multiset Nat → Prop
  | nil : LaysOut a [] [] 0
  | cons {i : Nat} {label : Segment} {children : List Node} {below rest : Multiset Nat}
      {places : List Nat} {trees : List Node} :
      a.label? i = some label → (∀ j ∈ a.level (some i), i < j) →
      LaysOut a (a.level (some i)) children below → LaysOut a places trees rest →
      LaysOut a (i :: places) (.mk label children :: trees) ({i} + below + rest)

def Keeps (a b : Arena) (used : Multiset Nat) : Prop :=
  ∀ i ∈ used, b.label? i = a.label? i ∧ b.level (some i) = a.level (some i)

variable {a b : Arena} {places : List Nat} {trees : List Node} {used : Multiset Nat}

theorem LaysOut.length_eq (h : LaysOut a places trees used) : places.length = trees.length := by
  induction h with
  | nil => rfl
  | cons _ _ _ _ _ ih => rw [List.length_cons, List.length_cons, ih]

theorem LaysOut.card_used (h : LaysOut a places trees used) :
    used.card = Node.totalSize trees := by
  induction h with
  | nil => rfl
  | cons _ _ _ _ ihBelow ihRest =>
    simp only [Multiset.card_add, Multiset.card_singleton, ihBelow, ihRest, Node.totalSize,
      Node.size]
    omega

theorem keeps_add {rest : Multiset Nat} :
    Keeps a b (used + rest) ↔ Keeps a b used ∧ Keeps a b rest := by
  constructor
  · intro h
    exact ⟨fun i hi => h i (Multiset.mem_add.mpr (.inl hi)),
      fun i hi => h i (Multiset.mem_add.mpr (.inr hi))⟩
  · intro h i hi
    rcases Multiset.mem_add.mp hi with hi | hi
    · exact h.1 i hi
    · exact h.2 i hi

theorem Keeps.trans {c : Arena} (hab : Keeps a b used) (hbc : Keeps b c used) :
    Keeps a c used := fun i hi =>
  ⟨(hbc i hi).1.trans (hab i hi).1, (hbc i hi).2.trans (hab i hi).2⟩

/-- Each cell in use is there, and its children stand behind it. -/
theorem LaysOut.of_mem_used (h : LaysOut a places trees used) :
    ∀ i ∈ used, i < a.cells.length ∧ ∀ j ∈ a.level (some i), i < j := by
  induction h with
  | nil => simp
  | cons hlabel hafter _ _ ihBelow ihRest =>
    intro k hk
    rcases Multiset.mem_add.mp hk with hk | hk
    · rcases Multiset.mem_add.mp hk with hk | hk
      · rw [Multiset.mem_singleton.mp hk]
        exact ⟨lt_of_label? hlabel, hafter⟩
      · exact ihBelow k hk
    · exact ihRest k hk

/-- The cells the trees do not take up make no difference. -/
theorem LaysOut.frame (h : LaysOut a places trees used) (hkeep : Keeps a b used) :
    LaysOut b places trees used := by
  induction h with
  | nil => exact .nil
  | @cons i label children below rest places trees hlabel hafter _ _ ihBelow ihRest =>
    obtain ⟨hkeepTree, hkeepRest⟩ := keeps_add.mp hkeep
    obtain ⟨hkeepTop, hkeepBelow⟩ := keeps_add.mp hkeepTree
    obtain ⟨hlabel', hlevel⟩ := hkeepTop i (Multiset.mem_singleton_self i)
    have hbelow := ihBelow hkeepBelow
    rw [← hlevel] at hbelow hafter
    exact .cons (hlabel'.trans hlabel) hafter hbelow (ihRest hkeepRest)

theorem LaysOut.cons_of_keeps {i : Nat} {label : Segment} {children : List Node}
    {below rest : Multiset Nat} (hlabel : a.label? i = some label)
    (hafter : ∀ j ∈ a.level (some i), i < j)
    (hbelow : LaysOut a (a.level (some i)) children below) (hkeep : Keeps a b ({i} + below))
    (hrest : LaysOut b places trees rest) :
    LaysOut b (i :: places) (.mk label children :: trees) ({i} + below + rest) := by
  obtain ⟨hkeepTop, hkeepBelow⟩ := keeps_add.mp hkeep
  obtain ⟨hlabel', hlevel⟩ := hkeepTop i (Multiset.mem_singleton_self i)
  have hframed := hbelow.frame hkeepBelow
  rw [← hlevel] at hframed hafter
  exact .cons (hlabel'.trans hlabel) hafter hframed hrest

/-- The children of the cells in use, together with the trees' own places, are the
cells in use. -/
theorem LaysOut.places_add_children (h : LaysOut a places trees used) :
    (places : Multiset Nat) + used.bind (fun i => (a.level (some i) : Multiset Nat)) = used := by
  induction h with
  | nil => rfl
  | @cons i label children below rest places trees _ _ _ _ ihBelow ihRest =>
    rw [Multiset.add_bind, Multiset.add_bind, Multiset.singleton_bind, ← Multiset.cons_coe,
      ← Multiset.singleton_add, add_add_add_comm, ihBelow, ihRest]

/-! ## Ranking a level -/

theorem standing_of_laysOut {i : Nat} {label : Segment} {children : List Node}
    {below : Multiset Nat} (hlabel : a.label? i = some label)
    (hbelow : LaysOut a (a.level (some i)) children below) :
    a.cells[i]?.map Cell.standing = some (Node.mk label children).standing := by
  rw [cell_of_label? hlabel, Option.map_some, Cell.standing, hbelow.length_eq]
  rfl

theorem outranks_of_standing {i j : Nat} {n m : Node}
    (hi : a.cells[i]?.map Cell.standing = some n.standing)
    (hj : a.cells[j]?.map Cell.standing = some m.standing) : a.outranks i j = n.outranks m := by
  obtain ⟨c, hc, hcn⟩ := Option.map_eq_some_iff.mp hi
  obtain ⟨d, hd, hdm⟩ := Option.map_eq_some_iff.mp hj
  simp only [outranks, hc, hd, Node.outranks, hcn, hdm]

/-- Putting a cell among ranked ones goes as putting its tree among theirs. -/
theorem LaysOut.placeBy {i : Nat} {label : Segment} {children : List Node}
    {below : Multiset Nat} (hlabel : a.label? i = some label)
    (hafter : ∀ j ∈ a.level (some i), i < j)
    (hbelow : LaysOut a (a.level (some i)) children below) (h : LaysOut a places trees used) :
    LaysOut a (placeBy a.outranks i places) (placeBy Node.outranks (.mk label children) trees)
      ({i} + below + used) := by
  induction h with
  | nil => exact .cons hlabel hafter hbelow .nil
  | @cons j other others belowOther rest places trees hlabelOther hafterOther hbelowOther
    hrest _ ih =>
    have houtranks := outranks_of_standing (standing_of_laysOut hlabelOther hbelowOther)
      (standing_of_laysOut hlabel hbelow)
    rw [RouteTemplates.placeBy, RouteTemplates.placeBy, houtranks]
    split
    · rw [add_left_comm]
      exact .cons hlabelOther hafterOther hbelowOther ih
    · exact .cons hlabel hafter hbelow (.cons hlabelOther hafterOther hbelowOther hrest)

theorem LaysOut.rank (h : LaysOut a places trees used) :
    LaysOut a (rankBy a.outranks places) (Node.rank trees) used := by
  induction h with
  | nil => exact .nil
  | cons hlabel hafter hbelow _ _ ih => exact .placeBy hlabel hafter hbelow ih

/-! ## Opening a tree -/

/-- One of the trees carries the label `s` and stands at `i`; `below` are the cells
below it and `rest` those of the other trees.  Whatever its children are changed to
by `f`, the trees are laid out again once the children are, if the cells in `rest`
are kept. -/
structure Opens (a : Arena) (places : List Nat) (s : Segment) (trees : List Node) (i : Nat)
    (children : List Node) (below rest : Multiset Nat) : Prop where
  label : a.label? i = some s
  after : ∀ j ∈ a.level (some i), i < j
  within : LaysOut a (a.level (some i)) children below
  close : ∀ {b : Arena} {f : List Node → List Node} {below' : Multiset Nat}, Keeps a b rest →
    b.label? i = some s → (∀ j ∈ b.level (some i), i < j) →
    LaysOut b (b.level (some i)) (f children) below' →
    LaysOut b places (Node.alter s f trees) ({i} + below' + rest)

theorem LaysOut.opens (h : LaysOut a places trees used) {s : Segment} {i : Nat}
    (hfind : places.find? (fun i => a.label? i = some s) = some i) :
    ∃ children below rest, used = {i} + below + rest ∧
      trees.find? (fun n => n.label = s) = some (.mk s children) ∧
      Opens a places s trees i children below rest := by
  induction h with
  | nil => cases hfind
  | @cons j label children below rest places trees hlabel hafter hbelow hrest _ ih =>
    by_cases hs : label = s
    · subst hs
      obtain rfl : j = i := by simpa [hlabel] using hfind
      refine ⟨children, below, rest, rfl, by simp, hlabel, hafter, hbelow, ?_⟩
      intro b f below' hkeep hlabel' hafter' hbelow'
      rw [Node.alter, if_pos rfl]
      exact .cons hlabel' hafter' hbelow' (hrest.frame hkeep)
    · obtain ⟨found, belowFound, restFound, rfl, htree, hopens⟩ :=
        ih (by simpa [hlabel, hs] using hfind)
      refine ⟨found, belowFound, {j} + below + restFound, by rw [add_left_comm],
        by simpa [hs] using htree, hopens.label, hopens.after, hopens.within, ?_⟩
      intro b f below' hkeep hlabel' hafter' hbelow'
      obtain ⟨hkeepTree, hkeepRest⟩ := keeps_add.mp hkeep
      have hclosed := hopens.close hkeepRest hlabel' hafter' hbelow'
      rw [Node.alter, if_neg hs, add_left_comm]
      exact .cons_of_keeps hlabel hafter hbelow hkeepTree hclosed

theorem LaysOut.concat (h : LaysOut a places trees used) {s : Segment} {i : Nat}
    {f : List Node → List Node} {below : Multiset Nat}
    (hnone : places.find? (fun i => a.label? i = some s) = none) (hkeep : Keeps a b used)
    (hlabel : b.label? i = some s) (hafter : ∀ j ∈ b.level (some i), i < j)
    (hbelow : LaysOut b (b.level (some i)) (f []) below) :
    LaysOut b (places ++ [i]) (Node.alter s f trees) ({i} + below + used) := by
  induction h with
  | nil => exact .cons hlabel hafter hbelow .nil
  | @cons j other children belowOther rest places trees hother hafterOther hbelowOther _ _ ih =>
    obtain ⟨hs, hmore⟩ : other ≠ s ∧ places.find? (fun i => a.label? i = some s) = none := by
      simpa [hother] using hnone
    obtain ⟨hkeepTree, hkeepRest⟩ := keeps_add.mp hkeep
    rw [Node.alter, if_neg hs, add_left_comm]
    exact .cons_of_keeps hother hafterOther hbelowOther hkeepTree (ih hmore hkeepRest)

theorem LaysOut.find?_eq_none (h : LaysOut a places trees used) {s : Segment}
    (hnone : places.find? (fun i => a.label? i = some s) = none) :
    trees.find? (fun n => n.label = s) = none := by
  induction h with
  | nil => rfl
  | @cons i label children below rest places trees hlabel _ _ _ _ ih =>
    obtain ⟨hs, hmore⟩ : label ≠ s ∧ places.find? (fun i => a.label? i = some s) = none := by
      simpa [hlabel] using hnone
    simpa [hs] using ih hmore

/-- A cell without children, put behind places where no tree carries its label, is
opened together with them. -/
theorem LaysOut.opens_made (h : LaysOut a places trees used) {s : Segment} {i : Nat}
    (hnone : places.find? (fun i => a.label? i = some s) = none) (hkeep : Keeps a b used)
    (hlabel : b.label? i = some s) (hlevel : b.level (some i) = []) :
    Opens b (places ++ [i]) s trees i [] 0 used where
  label := hlabel
  after := by simp [hlevel]
  within := by
    rw [hlevel]
    exact .nil
  close := by
    intro c f below hkeep' hlabel' hafter hbelow
    exact h.concat hnone (hkeep.trans hkeep') hlabel' hafter hbelow

end Arena
end RouteTemplates
