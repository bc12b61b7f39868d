import RouteTemplates.Proofs.Trie.Choice

/-!
# Ways on

What can stand behind a path is known from the rows alone: the segments that follow
it in one of them.  In a trie of the rows these are the labels of the level behind the
path, so what resolving does at a level, where it looks at labels and at numbers of
children, can be said of the rows.
-/

namespace RouteTemplates

namespace Segment

/-- The segments that follow the path in the rows, each of them once. -/
def continuations (rows : List (List Segment)) (path : List Segment) : List Segment :=
  (rows.filterMap fun row => if path <+: row then row[path.length]? else none).dedup

theorem mem_continuations {rows : List (List Segment)} {path : List Segment} {s : Segment} :
    s ∈ continuations rows path ↔ ∃ row ∈ rows, path ++ [s] <+: row := by
  rw [continuations, List.mem_dedup, List.mem_filterMap]
  refine exists_congr fun row => and_congr_right fun _ => ?_
  constructor
  · intro h
    obtain ⟨⟨more, rfl⟩, hs⟩ := Option.ite_none_right_eq_some.mp h
    rw [List.getElem?_append_right (Nat.le_refl _), Nat.sub_self] at hs
    obtain ⟨rest, rfl⟩ := List.head?_eq_some_iff.mp (List.head?_eq_getElem? ▸ hs)
    exact ⟨rest, by simp⟩
  · rintro ⟨more, rfl⟩
    rw [List.append_assoc, if_pos (List.prefix_append _ _)]
    simp

theorem nodup_continuations (rows : List (List Segment)) (path : List Segment) :
    (continuations rows path).Nodup := List.nodup_dedup _

end Segment

namespace Node

open Segment

/-- The trees are the level behind the path in a ranked trie of the rows. -/
structure Level (rows : List (List Segment)) (path : List Segment) (trees : List Node) : Prop where
  isRow : ∀ row ∈ rows, row = [] ∨ IsRow row
  paths : ∀ q, q ∈ pathsOf trees ↔ q ≠ [] ∧ ∃ row ∈ rows, path ++ q <+: row
  proper : ProperForest trees
  ranked : RankedForest trees

section

variable {rows : List (List Segment)} {path : List Segment} {trees : List Node} {n : Node}

theorem Level.below (h : Level rows path trees) (hn : n ∈ trees) :
    Level rows (path ++ [n.label]) n.children where
  isRow := h.isRow
  paths q := by
    by_cases hq : q = []
    · rw [hq]
      exact iff_of_false (fun hmem => ne_nil_of_mem_pathsOf hmem rfl) fun hmem => hmem.1 rfl
    · have hpath := h.paths (n.label :: q)
      rw [h.proper.cons_mem_pathsOf hn] at hpath
      simpa [hq] using hpath
  proper := (h.proper.proper n hn).forest
  ranked := (h.ranked.ranked n hn).forest

/-- Each node of the trie has a path, and its children are the level behind it. -/
theorem Level.exists_of_mem_nodesOf (h : Level rows path trees) (hn : n ∈ nodesOf trees) :
    ∃ before, Level rows (before ++ [n.label]) n.children := by
  obtain ⟨m, hm, hnm⟩ := mem_nodesOf.mp hn
  induction m using Node.induction generalizing path trees with
  | step label children ih =>
    have hbelow := h.below hm
    rcases hnm with rfl | hmore
    · exact ⟨path, hbelow⟩
    · obtain ⟨k, hk, hnk⟩ := mem_nodesOf.mp hmore
      exact ih k hk hbelow hmore hk hnk

theorem Level.mem_labels (h : Level rows path trees) {s : Segment} :
    s ∈ trees.map label ↔ s ∈ continuations rows path := by
  rw [← singleton_mem_pathsOf, h.paths, mem_continuations]
  simp

theorem Level.label_mem (h : Level rows path trees) (hn : n ∈ trees) :
    n.label ∈ continuations rows path :=
  h.mem_labels.mp (List.mem_map_of_mem hn)

theorem Level.exists_of_mem (h : Level rows path trees) {s : Segment}
    (hs : s ∈ continuations rows path) : ∃ n ∈ trees, n.label = s :=
  List.mem_map.mp (h.mem_labels.mpr hs)

theorem Level.perm_labels (h : Level rows path trees) :
    (trees.map label).Perm (continuations rows path) :=
  (List.perm_ext_iff_of_nodup h.proper.distinct (nodup_continuations rows path)).mpr fun _ =>
    h.mem_labels

/-- A node has as many children as there are ways on from it in the rows. -/
theorem Level.length_children (h : Level rows path trees) (hn : n ∈ trees) :
    n.children.length = (continuations rows (path ++ [n.label])).length := by
  rw [← (h.below hn).perm_labels.length_eq, List.length_map]

theorem Level.endsHere_iff (h : Level rows path trees) (hn : n ∈ trees) :
    endsHere n.children ↔ ∃ name, continuations rows (path ++ [n.label]) = [.finish name] := by
  have hperm := (h.below hn).perm_labels
  rw [Node.endsHere_iff]
  refine exists_congr fun name => ⟨fun heq => ?_, fun heq => ?_⟩
  · exact List.perm_singleton.mp (heq ▸ hperm.symm)
  · exact List.perm_singleton.mp (heq ▸ hperm)

/-- Behind the start, what stands in a trie stands in a row of a template. -/
theorem Level.inner (h : Level rows path trees) (hpath : path ≠ []) (hn : n ∈ trees) :
    Inner n.label := by
  obtain ⟨row, hrow, hprefix⟩ := mem_continuations.mp (h.label_mem hn)
  rcases h.isRow row hrow with rfl | ⟨more, rfl, htail, _⟩
  · simp at hprefix
  · obtain ⟨s, before, rfl⟩ := List.exists_cons_of_ne_nil hpath
    obtain ⟨_, hmore⟩ := List.cons_prefix_cons.mp hprefix
    exact htail.inner _ (hmore.subset (by simp))

end

/-! ## The level behind a path -/

/-- The trees that stand behind the path; there are none behind what is no path. -/
def behind : List Segment → List Node → List Node
  | [], trees => trees
  | s :: path, trees =>
    match trees.find? fun n => n.label = s with
    | some n => behind path n.children
    | none => []

theorem ProperForest.find?_label {trees : List Node} (h : ProperForest trees) {n : Node}
    (hn : n ∈ trees) : (trees.find? fun m => m.label = n.label) = some n := by
  cases hfind : trees.find? fun m => m.label = n.label with
  | none => simpa using List.find?_eq_none.mp hfind n hn
  | some m =>
    have hlabel : m.label = n.label := by simpa using List.find?_some hfind
    rw [h.eq_of_label_eq (List.mem_of_find?_eq_some hfind) hn hlabel]

theorem ProperForest.behind_cons {trees : List Node} (h : ProperForest trees) {n : Node}
    (hn : n ∈ trees) (path : List Segment) :
    behind (n.label :: path) trees = behind path n.children := by
  rw [behind, h.find?_label hn]

theorem Level.behind {rows : List (List Segment)} {path : List Segment} {trees : List Node}
    (h : Level rows path trees) (more : List Segment) :
    Level rows (path ++ more) (behind more trees) := by
  induction more generalizing path trees with
  | nil => rwa [List.append_nil, Node.behind]
  | cons s more ih =>
    rw [Node.behind]
    split
    · rename_i n hfind
      have hn := List.mem_of_find?_eq_some hfind
      have hlabel : n.label = s := by simpa using List.find?_some hfind
      have hbelow := ih (h.below hn)
      rwa [hlabel, List.append_assoc] at hbelow
    · rename_i hfind
      refine ⟨h.isRow, fun q => iff_of_false List.not_mem_nil ?_, properForest_nil,
        rankedForest_nil⟩
      rintro ⟨_, row, hrow, hprefix⟩
      have hs : s ∈ continuations rows path :=
        mem_continuations.mpr ⟨row, hrow, List.IsPrefix.trans ⟨more ++ q, by simp⟩ hprefix⟩
      obtain ⟨n, hn, hlabel⟩ := h.exists_of_mem hs
      simpa [hlabel] using List.find?_eq_none.mp hfind n hn

end Node

theorem Trie.Represents.level {t : Trie} {rows : List (List Segment)} (h : t.Represents rows)
    (hranked : Node.RankedForest t.roots) : Node.Level rows [] t.roots :=
  ⟨h.isRow, h.mem_paths, h.forest, hranked⟩

end RouteTemplates
