import RouteTemplates.Proofs.History
import RouteTemplates.Proofs.Trie.ArenaInsertion

/-!
# What a trie holds

A trie that has been given templates is made of their rows: its ways from the
roots to the leaves are the rows, its nodes are their beginnings, and its counts
are numbers of these.  In an arena the same trie is a forest, since each cell has
one parent at most and stands behind it.
-/

namespace RouteTemplates

open Segment Node

/-- The trie is made of the rows.  Empty rows leave no trace, and of equal ones
there is one. -/
structure Trie.MadeOf (t : Trie) (rows : List (List Segment)) : Prop where
  nodup_leafPaths : (leafPathsOf t.roots).Nodup
  mem_leafPaths : ∀ row, row ∈ leafPathsOf t.roots ↔ row ∈ rows ∧ row ≠ []
  leaf_iff : ∀ n ∈ nodesOf t.roots, n.children = [] ↔ n.label.isFinish
  size_eq : t.size = (rows.filter (· ≠ [])).dedup.length
  nodeCount_eq : t.nodeCount = ((rows.flatMap List.inits).filter (· ≠ [])).dedup.length
  longest_eq : t.longest = longestOf rows
  root : t.roots = [] ∨ ∃ children, t.roots = [.mk .start children]
  distinct_roots : (t.roots.map label).Nodup
  distinct_children : ∀ n ∈ nodesOf t.roots, (n.children.map label).Nodup
  not_filled : ∀ n ∈ nodesOf t.roots, n.label.isFilled = false
  after_slot : ∀ n ∈ nodesOf t.roots, n.label.isSlot →
    ∀ m ∈ n.children, m.label.isLiteral ∨ m.label.isFinish

namespace Trie

/-- The nodes are the beginnings of the rows, since each has a path of its own. -/
theorem Represents.nodeCount_eq {t : Trie} {rows : List (List Segment)} (h : t.Represents rows) :
    t.nodeCount = ((rows.flatMap List.inits).filter (· ≠ [])).dedup.length := by
  rw [nodeCount, ← length_pathsOf]
  refine ((List.perm_ext_iff_of_nodup h.forest.nodup_pathsOf (List.nodup_dedup _)).mpr ?_).length_eq
  intro q
  rw [h.mem_paths, List.mem_dedup, List.mem_filter, List.mem_flatMap]
  simp only [List.mem_inits, decide_eq_true_eq, and_comm]

theorem Represents.madeOf {t : Trie} {rows : List (List Segment)} (h : t.Represents rows) :
    t.MadeOf rows where
  nodup_leafPaths := h.forest.nodup_pathsOf.sublist (leafPathsOf_sublist t.roots)
  mem_leafPaths row := by
    rw [h.forest.mem_leafPathsOf]
    constructor
    · rintro ⟨hpath, hends⟩
      exact ⟨(h.mem_paths_iff_mem hends).mp hpath, ne_nil_of_mem_pathsOf hpath⟩
    · rintro ⟨hrow, hne⟩
      have hends := ((h.isRow row hrow).resolve_left hne).ends
      exact ⟨(h.mem_paths_iff_mem hends).mpr hrow, hends⟩
  leaf_iff n hn := (h.forest.proper_of_mem_nodesOf hn).leaf_iff
  size_eq := h.size_eq
  nodeCount_eq := h.nodeCount_eq
  longest_eq := h.longest_eq
  root := h.root
  distinct_roots := h.forest.distinct
  distinct_children n hn := (h.forest.proper_of_mem_nodesOf hn).forest.distinct
  not_filled n hn := (h.forest.proper_of_mem_nodesOf hn).not_filled
  after_slot n hn hs := (h.forest.proper_of_mem_nodesOf hn).after_slot hs

end Trie

theorem Catalog.Registered.arena_holds {c : Catalog} {ts : List Template}
    (h : c.Registered ts) : (Arena.ofTemplates ts).Holds c.trie.roots := by
  rw [h.trie_eq]
  exact Arena.holds_ofTemplates ts

/-- After any history the trie is made of the rows of the registered templates, and
an arena given the same templates holds it: each cell is a root or the child of one
cell, and stands behind that. -/
theorem Catalog.Registered.trie_madeOf {c : Catalog} {ts : List Template}
    (h : c.Registered ts) :
    c.trie.MadeOf (ts.map Template.row) ∧
      (Arena.ofTemplates ts).Holds c.trie.roots ∧
      (Arena.ofTemplates ts).cells.length = c.trie.nodeCount ∧
      ((Arena.ofTemplates ts).roots ++ (Arena.ofTemplates ts).cells.flatMap Cell.children).Perm
        (List.range (Arena.ofTemplates ts).cells.length) ∧
      ∀ (i : Nat) (cell : Cell), (Arena.ofTemplates ts).cells[i]? = some cell →
        ∀ j ∈ cell.children, i < j := by
  have hholds : (Arena.ofTemplates ts).Holds c.trie.roots := by
    rw [h.trie_eq]
    exact Arena.holds_ofTemplates ts
  exact ⟨h.sound.represents.madeOf, hholds, hholds.length_cells, hholds.perm_range,
    fun _ _ => hholds.lt_of_mem_children⟩

/-- Two templates that share three segments, one of them registered twice. -/
theorem Catalog.Registered.trie_madeOf_of_shared :
    let users : Template := .counted
      [.start, .literal .plain ['/'], .slot ['<', 'u', '>'], .finish none]
    let pages : Template := .counted
      [.start, .literal .plain ['/'], .slot ['<', 'u', '>'], .literal .plain ['/'],
        .slot ['<', 'p', '>'], .finish (some ['p'])]
    let c := (((Catalog.new .braces .standard).insert users).insert pages).insert users
    c.trie.MadeOf ([users, pages, users].map Template.row) ∧
      c.trie.size = 2 ∧ (Arena.ofTemplates [users, pages, users]).cells.length = 7 := by
  intro users pages c
  have husers : Template.ofSegments users.segments = .ok users := rfl
  have hpages : Template.ofSegments pages.segments = .ok pages := rfl
  have hregistered : c.Registered [users, pages, users] :=
    .insert (.insert (.insert (.new _ _) (.ofSegments husers)) (.ofSegments hpages))
      (.ofSegments husers)
  obtain ⟨hmade, _, hlength, _⟩ := hregistered.trie_madeOf
  exact ⟨hmade, rfl, hlength.trans rfl⟩

end RouteTemplates
