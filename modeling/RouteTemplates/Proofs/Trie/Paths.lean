import Mathlib.Data.List.Dedup
import Mathlib.Data.List.Infix
import RouteTemplates.Trie.Insertion

/-!
# The paths of a trie

A node stands at the end of one path from the roots, the row of labels on the way
to it.  Adding a template adds its beginnings to these paths and nothing else,
whatever the order of siblings and whether or not labels repeat among them, so
most questions about a trie are answered on its paths.
-/

namespace RouteTemplates

/-! ## Ranking -/

section Ranking

variable {α : Type} (outranks : α → α → Bool)

theorem placeBy_perm (a : α) (siblings : List α) :
    (placeBy outranks a siblings).Perm (a :: siblings) := by
  induction siblings with
  | nil => exact .refl _
  | cons b more ih =>
    rw [placeBy]
    split
    · exact (ih.cons b).trans (.swap a b more)
    · exact .refl _

theorem rankBy_perm (siblings : List α) : (rankBy outranks siblings).Perm siblings := by
  induction siblings with
  | nil => exact .refl _
  | cons a more ih =>
    rw [rankBy, List.foldr_cons]
    exact (placeBy_perm outranks a _).trans (ih.cons a)

end Ranking

namespace Node

@[simp]
theorem mem_rank {n : Node} {trees : List Node} : n ∈ rank trees ↔ n ∈ trees :=
  (rankBy_perm outranks trees).mem_iff

/-- What holds of a node when it holds of its children holds of all nodes. -/
theorem induction {motive : Node → Prop}
    (step : ∀ label children, (∀ n ∈ children, motive n) → motive (mk label children)) :
    ∀ n, motive n
  | mk label children => step label children fun n _ => induction step n

/-! ## Nodes and paths -/

mutual

def nodes : Node → List Node
  | mk label children => mk label children :: nodesOf children

def nodesOf : List Node → List Node
  | [] => []
  | n :: more => n.nodes ++ nodesOf more

end

mutual

/-- The rows of labels that lead from the root of a tree to its nodes. -/
def paths : Node → List (List Segment)
  | mk label children => [label] :: (pathsOf children).map (label :: ·)

def pathsOf : List Node → List (List Segment)
  | [] => []
  | n :: more => n.paths ++ pathsOf more

end

mutual

/-- The rows of labels that lead from the root of a tree to its leaves. -/
def leafPaths : Node → List (List Segment)
  | mk label children =>
    if children.isEmpty then [[label]] else (leafPathsOf children).map (label :: ·)

def leafPathsOf : List Node → List (List Segment)
  | [] => []
  | n :: more => n.leafPaths ++ leafPathsOf more

end

theorem nodesOf_eq_flatMap (trees : List Node) : nodesOf trees = trees.flatMap nodes := by
  induction trees with
  | nil => rfl
  | cons n more ih => rw [nodesOf, ih, List.flatMap_cons]

theorem pathsOf_eq_flatMap (trees : List Node) : pathsOf trees = trees.flatMap paths := by
  induction trees with
  | nil => rfl
  | cons n more ih => rw [pathsOf, ih, List.flatMap_cons]

theorem leafPathsOf_eq_flatMap (trees : List Node) :
    leafPathsOf trees = trees.flatMap leafPaths := by
  induction trees with
  | nil => rfl
  | cons n more ih => rw [leafPathsOf, ih, List.flatMap_cons]

theorem mem_nodesOf {n : Node} {trees : List Node} :
    n ∈ nodesOf trees ↔ ∃ m ∈ trees, n = m ∨ n ∈ nodesOf m.children := by
  rw [nodesOf_eq_flatMap, List.mem_flatMap]
  refine exists_congr fun m => and_congr_right fun _ => ?_
  cases m with
  | mk label children => rw [nodes, List.mem_cons, children_mk]

theorem mem_paths {q : List Segment} {n : Node} :
    q ∈ n.paths ↔ q = [n.label] ∨ ∃ r ∈ pathsOf n.children, q = n.label :: r := by
  cases n with
  | mk label children => simp [paths, eq_comm]

theorem mem_pathsOf {q : List Segment} {trees : List Node} :
    q ∈ pathsOf trees ↔
      ∃ n ∈ trees, q = [n.label] ∨ ∃ r ∈ pathsOf n.children, q = n.label :: r := by
  rw [pathsOf_eq_flatMap, List.mem_flatMap]
  exact exists_congr fun n => and_congr_right fun _ => mem_paths

theorem ne_nil_of_mem_pathsOf {q : List Segment} {trees : List Node} (h : q ∈ pathsOf trees) :
    q ≠ [] := by
  obtain ⟨n, _, rfl | ⟨r, _, rfl⟩⟩ := mem_pathsOf.mp h <;> simp

mutual

theorem length_paths : ∀ n : Node, n.paths.length = n.size
  | mk label children => by rw [paths, size, List.length_cons, List.length_map, length_pathsOf]

theorem length_pathsOf : ∀ trees : List Node, (pathsOf trees).length = totalSize trees
  | [] => rfl
  | n :: more => by rw [pathsOf, totalSize, List.length_append, length_paths, length_pathsOf]

end

/-! ## Adding a path -/

theorem mem_pathsOf_rank {q : List Segment} {trees : List Node} :
    q ∈ pathsOf (rank trees) ↔ q ∈ pathsOf trees := by
  rw [mem_pathsOf, mem_pathsOf]
  simp only [mem_rank]

/-- If `f` adds the paths in `added` to those of any children, then changing the
children under a label adds the label itself and `added` behind it. -/
theorem mem_pathsOf_alter {s : Segment} {f : List Node → List Node} {added : List Segment → Prop}
    (hf : ∀ children r, r ∈ pathsOf (f children) ↔ r ∈ pathsOf children ∨ added r)
    {trees : List Node} {q : List Segment} :
    q ∈ pathsOf (alter s f trees) ↔
      q ∈ pathsOf trees ∨ q = [s] ∨ ∃ r, added r ∧ q = s :: r := by
  induction trees with
  | nil =>
    have hmade : ∀ r, r ∈ pathsOf (f []) ↔ added r := by simp [hf, pathsOf]
    simp [alter, pathsOf, mem_paths, hmade]
  | cons n more ih =>
    obtain ⟨other, below⟩ := n
    simp only [alter]
    split
    · rename_i heq
      subst heq
      simp only [pathsOf, List.mem_append, mem_paths, label_mk, children_mk, hf]
      constructor
      · rintro ((h | ⟨r, h | h, rfl⟩) | h)
        · exact .inr (.inl h)
        · exact .inl (.inl (.inr ⟨r, h, rfl⟩))
        · exact .inr (.inr ⟨r, h, rfl⟩)
        · exact .inl (.inr h)
      · rintro (((h | ⟨r, h, rfl⟩) | h) | (h | ⟨r, h, rfl⟩))
        · exact .inl (.inl h)
        · exact .inl (.inr ⟨r, .inl h, rfl⟩)
        · exact .inr h
        · exact .inl (.inl h)
        · exact .inl (.inr ⟨r, .inr h, rfl⟩)
    · rw [pathsOf, pathsOf, List.mem_append, List.mem_append, ih, or_assoc]

/-- Adding a path adds its beginnings. -/
theorem mem_pathsOf_graft {path : List Segment} {trees : List Node} {q : List Segment} :
    q ∈ pathsOf (graft path trees) ↔ q ∈ pathsOf trees ∨ (q ≠ [] ∧ q <+: path) := by
  induction path generalizing trees q with
  | nil =>
    rw [graft, List.prefix_nil]
    tauto
  | cons s path ih =>
    rw [graft, mem_pathsOf_rank, mem_pathsOf_alter fun children r => ih]
    refine or_congr_right ⟨?_, ?_⟩
    · rintro (rfl | ⟨r, ⟨_, hr⟩, rfl⟩)
      · exact ⟨by simp, by simp⟩
      · exact ⟨by simp, List.cons_prefix_cons.mpr ⟨rfl, hr⟩⟩
    · rintro ⟨hne, hq⟩
      obtain ⟨t, r, rfl⟩ := List.exists_cons_of_ne_nil hne
      obtain ⟨rfl, hr⟩ := List.cons_prefix_cons.mp hq
      by_cases hnil : r = []
      · exact .inl (by rw [hnil])
      · exact .inr ⟨r, ⟨hnil, hr⟩, rfl⟩

theorem mem_label_alter {s : Segment} {f : List Node → List Node} {trees : List Node} :
    (alter s f trees).map label =
      if s ∈ trees.map label then trees.map label else trees.map label ++ [s] := by
  induction trees with
  | nil => rfl
  | cons n more ih =>
    obtain ⟨other, below⟩ := n
    by_cases heq : other = s
    · simp [alter, heq]
    · have hne : s ≠ other := Ne.symm heq
      simp only [alter, if_neg heq, List.map_cons, ih, label_mk, List.mem_cons, hne, false_or]
      split <;> rfl

/-! ## Leaves -/

mutual

theorem leafPaths_sublist : ∀ n : Node, n.leafPaths.Sublist n.paths
  | mk label children => by
    rw [leafPaths, paths]
    split
    · exact (List.nil_sublist _).cons_cons _
    · exact ((leafPathsOf_sublist children).map _).cons _

theorem leafPathsOf_sublist : ∀ trees : List Node, (leafPathsOf trees).Sublist (pathsOf trees)
  | [] => .slnil
  | n :: more => (leafPaths_sublist n).append (leafPathsOf_sublist more)

end

end Node
end RouteTemplates
