import Mathlib.Data.Finset.Dedup
import RouteTemplates.Proofs.Trie.Shape

/-!
# Tries and the rows they were given

A trie represents the rows it was given when its paths are their beginnings and
its counts are those of the different rows.  `insert` keeps this, so it holds
along any run of registrations.  The size is right although `insert` only asks
whether the row can be followed down: a row ends with its only end, so it is
never the beginning of another one.
-/

namespace RouteTemplates
namespace Segment

/-- A row as a trie is given it: a start, a tail, and nothing filled. -/
def IsRow (row : List Segment) : Prop :=
  ∃ more, row = .start :: more ∧ Tail more ∧ ∀ s ∈ more, s.isFilled = false

theorem IsRow.ne_nil {row : List Segment} (h : IsRow row) : row ≠ [] := by
  obtain ⟨more, rfl, _⟩ := h
  simp

theorem IsRow.ends {row : List Segment} (h : IsRow row) : Ends row := by
  obtain ⟨more, rfl, htail, _⟩ := h
  exact (ends_cons htail.ne_nil).mpr htail.ends

theorem IsRow.not_filled {row : List Segment} (h : IsRow row) :
    ∀ s ∈ row, s.isFilled = false := by
  obtain ⟨more, rfl, _, hopen⟩ := h
  exact List.forall_mem_cons.mpr ⟨rfl, hopen⟩

theorem IsRow.eq_of_isPrefix {row path : List Segment} (h : IsRow row) (hp : path <+: row)
    (hends : Ends path) : path = row := by
  obtain ⟨more, rfl, htail, _⟩ := h
  cases path with
  | nil => exact absurd hends not_ends_nil
  | cons s path =>
    obtain ⟨rfl, hrest⟩ := List.cons_prefix_cons.mp hp
    by_cases hnil : path = []
    · subst hnil
      cases ends_singleton.mp hends
    · rw [htail.eq_of_isPrefix hrest ((ends_cons hnil).mp hends)]

theorem IsRow.exists_of_map_unfilled {row : List Segment} (h : IsRow (row.map unfilled)) :
    ∃ more, row = .start :: more ∧ Tail more := by
  obtain ⟨image, hrow, htail, _⟩ := h
  obtain ⟨s, more, rfl, hs, rfl⟩ := List.map_eq_cons_iff.mp hrow
  cases s with
  | start => exact ⟨more, rfl, htail.of_map_unfilled⟩
  | finish _ | literal _ _ | slot _ | filled _ _ => cases hs

end Segment

namespace Template

open Segment

/-- The row a template is registered under. -/
def row (t : Template) : List Segment := t.unfilled.segments

theorem WellFormed.isRow {t : Template} (h : t.WellFormed) : IsRow t.row := by
  obtain ⟨more, hseg, htail⟩ := h.framed
  refine ⟨more.map Segment.unfilled, ?_, tail_map_unfilled.mpr htail, ?_⟩
  · simp [row, Template.unfilled, hseg, Segment.unfilled]
  · simp

end Template

open Segment Node

def longestOf (rows : List (List Segment)) : Nat := (rows.map List.length).foldl max 0

namespace Trie

structure Represents (t : Trie) (rows : List (List Segment)) : Prop where
  isRow : ∀ row ∈ rows, row = [] ∨ IsRow row
  forest : ProperForest t.roots
  root : t.roots = [] ∨ ∃ children, t.roots = [.mk .start children]
  mem_paths : ∀ q, q ∈ pathsOf t.roots ↔ q ≠ [] ∧ ∃ row ∈ rows, q <+: row
  size_eq : t.size = (rows.filter (· ≠ [])).dedup.length
  longest_eq : t.longest = longestOf rows

theorem represents_empty : Trie.empty.Represents [] where
  isRow := by simp
  forest := properForest_nil
  root := .inl rfl
  mem_paths q := by simp [Trie.empty, pathsOf]
  size_eq := rfl
  longest_eq := rfl

/-- A row is a path exactly if it is one of the rows that were given. -/
theorem Represents.mem_paths_iff_mem {t : Trie} {rows : List (List Segment)}
    (h : t.Represents rows) {q : List Segment} (hends : Ends q) :
    q ∈ pathsOf t.roots ↔ q ∈ rows := by
  have hne : q ≠ [] := by
    rintro rfl
    exact not_ends_nil hends
  rw [h.mem_paths]
  constructor
  · rintro ⟨_, row, hrow, hp⟩
    rcases h.isRow row hrow with rfl | hr
    · exact absurd (List.prefix_nil.mp hp) hne
    · rw [hr.eq_of_isPrefix hp hends]
      exact hrow
  · intro hq
    exact ⟨hne, q, hq, List.prefix_refl q⟩

theorem Represents.not_filled_of_mem_pathsOf {t : Trie} {rows : List (List Segment)}
    (h : t.Represents rows) {path : List Segment} (hpath : path ∈ pathsOf t.roots) :
    ∀ s ∈ path, s.isFilled = false := by
  intro s hs
  obtain ⟨_, row, hrow, hprefix⟩ := (h.mem_paths path).mp hpath
  have hin : s ∈ row := hprefix.subset hs
  rcases h.isRow row hrow with rfl | hr
  · cases hin
  · exact hr.not_filled s hin

/-! ## Counting -/

theorem dedup_length_concat {α : Type} [DecidableEq α] (l : List α) (a : α) :
    (l ++ [a]).dedup.length = (a :: l).dedup.length := by
  have hperm : (l ++ [a]).Perm (a :: l) := List.perm_append_comm
  exact hperm.dedup.length_eq

theorem dedup_length_concat_of_mem {α : Type} [DecidableEq α] {l : List α} {a : α} (h : a ∈ l) :
    (l ++ [a]).dedup.length = l.dedup.length := by
  rw [dedup_length_concat, List.dedup_cons_of_mem h]

theorem dedup_length_concat_of_notMem {α : Type} [DecidableEq α] {l : List α} {a : α}
    (h : a ∉ l) : (l ++ [a]).dedup.length = l.dedup.length + 1 := by
  rw [dedup_length_concat, List.dedup_cons_of_notMem h, List.length_cons]

theorem filter_concat_of_ne_nil {rows : List (List Segment)} {row : List Segment} (h : row ≠ []) :
    (rows ++ [row]).filter (· ≠ []) = rows.filter (· ≠ []) ++ [row] := by
  simp [List.filter_append, h]

theorem longestOf_concat (rows : List (List Segment)) (row : List Segment) :
    longestOf (rows ++ [row]) = max (longestOf rows) row.length := by
  simp [longestOf]

/-! ## Registering -/

theorem graft_start_root {t : Trie} (h : t.roots = [] ∨ ∃ children, t.roots = [.mk .start children])
    (more : List Segment) : ∃ children, graft (.start :: more) t.roots = [.mk .start children] := by
  rcases h with hnil | ⟨children, hone⟩
  · exact ⟨graft more [], by rw [hnil]; rfl⟩
  · exact ⟨graft more children, by rw [hone, graft, alter, if_pos rfl]; rfl⟩

theorem isRow_concat {rows : List (List Segment)} {row : List Segment}
    (h : ∀ r ∈ rows, r = [] ∨ IsRow r) (hrow : row = [] ∨ IsRow row) :
    ∀ r ∈ rows ++ [row], r = [] ∨ IsRow r := by
  intro r hr
  rcases List.mem_append.mp hr with hr | hr
  · exact h r hr
  · rw [List.mem_singleton.mp hr]
    exact hrow

theorem Represents.mem_of_holds {t : Trie} {rows : List (List Segment)} {row : List Segment}
    (h : t.Represents rows) (hrow : IsRow row) (hholds : holds row t.roots) : row ∈ rows :=
  (h.mem_paths_iff_mem hrow.ends).mp ((h.forest.holds_iff.mp hholds).resolve_left hrow.ne_nil)

theorem Represents.concat_of_holds {t : Trie} {rows : List (List Segment)} {row : List Segment}
    (h : t.Represents rows) (hrow : row = [] ∨ IsRow row) (hholds : holds row t.roots) :
    Represents { t with longest := max t.longest row.length } (rows ++ [row]) := by
  have hold : row = [] ∨ row ∈ rows := hrow.imp_right fun hr => h.mem_of_holds hr hholds
  refine ⟨isRow_concat h.isRow hrow, h.forest, h.root, fun q => ?_, ?_, ?_⟩
  · rw [h.mem_paths]
    refine and_congr_right fun hne => ⟨?_, ?_⟩
    · rintro ⟨r, hr, hp⟩
      exact ⟨r, List.mem_append_left _ hr, hp⟩
    · rintro ⟨r, hr, hp⟩
      rcases List.mem_append.mp hr with hr | hr
      · exact ⟨r, hr, hp⟩
      · obtain rfl := List.mem_singleton.mp hr
        rcases hold with rfl | hold
        · exact absurd (List.prefix_nil.mp hp) hne
        · exact ⟨r, hold, hp⟩
  · by_cases hnil : row = []
    · simpa [hnil, List.filter_append] using h.size_eq
    · have hmem : row ∈ rows.filter (· ≠ []) :=
        List.mem_filter.mpr ⟨hold.resolve_left hnil, by simpa using hnil⟩
      rw [filter_concat_of_ne_nil hnil, dedup_length_concat_of_mem hmem]
      exact h.size_eq
  · rw [longestOf_concat, h.longest_eq]

theorem Represents.concat_of_not_holds {t : Trie} {rows : List (List Segment)}
    {row : List Segment} (h : t.Represents rows) (hrow : row = [] ∨ IsRow row)
    (hholds : ¬ holds row t.roots) :
    Represents ⟨graft row t.roots, t.size + 1, max t.longest row.length⟩ (rows ++ [row]) := by
  rw [h.forest.holds_iff, not_or] at hholds
  obtain ⟨hnil, hnew⟩ := hholds
  have hr := hrow.resolve_left hnil
  rw [h.mem_paths_iff_mem hr.ends] at hnew
  obtain ⟨more, rfl, htail, hopen⟩ := hr
  refine ⟨isRow_concat h.isRow hrow, h.forest.graft_start htail hopen,
    .inr (graft_start_root h.root more), fun q => ?_, ?_, ?_⟩
  · rw [mem_pathsOf_graft, h.mem_paths]
    constructor
    · rintro (⟨hne, r, hr, hp⟩ | ⟨hne, hp⟩)
      · exact ⟨hne, r, List.mem_append_left _ hr, hp⟩
      · exact ⟨hne, _, List.mem_append_right _ (List.mem_singleton_self _), hp⟩
    · rintro ⟨hne, r, hr, hp⟩
      rcases List.mem_append.mp hr with hr | hr
      · exact .inl ⟨hne, r, hr, hp⟩
      · obtain rfl := List.mem_singleton.mp hr
        exact .inr ⟨hne, hp⟩
  · have hnotMem : .start :: more ∉ rows.filter (· ≠ []) := fun hmem =>
      hnew (List.mem_of_mem_filter hmem)
    rw [filter_concat_of_ne_nil hnil, dedup_length_concat_of_notMem hnotMem, h.size_eq]
  · rw [longestOf_concat, h.longest_eq]

theorem Represents.insert {t : Trie} {rows : List (List Segment)} (h : t.Represents rows)
    {template : Template} (hrow : template.row = [] ∨ IsRow template.row) :
    (t.insert template).Represents (rows ++ [template.row]) := by
  rw [Trie.insert]
  split
  · rename_i hholds
    exact h.concat_of_holds hrow hholds
  · rename_i hholds
    exact h.concat_of_not_holds hrow hholds

end Trie
end RouteTemplates
