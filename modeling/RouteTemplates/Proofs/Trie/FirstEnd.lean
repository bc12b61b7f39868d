import RouteTemplates.Proofs.History
import RouteTemplates.Proofs.Trie.ArenaInsertion
import RouteTemplates.Proofs.Trie.Continuations

/-!
# First ends

A template leaves its end at the level behind the segments in front of it, and templates
that differ in their names alone leave their ends at one level.  A new end goes behind
those that are there.  Ranking the level moves it about among literals and slots, but no
end outranks another, so the ends stay in the order in which they came and the first of
them is the end of the template that was registered first.
-/

namespace RouteTemplates

namespace Segment

/-- The end that the row leaves behind the path. -/
def endBehind? (path row : List Segment) : Option Segment :=
  if row.dropLast = path then row.getLast? else none

theorem endBehind?_nil (path : List Segment) : endBehind? path [] = none := by
  simp [endBehind?]

theorem endBehind?_nil_cons (s : Segment) (more : List Segment) :
    endBehind? [] (s :: more) = if more = [] then some s else none := by
  cases more <;> simp [endBehind?]

theorem endBehind?_cons_cons (p s : Segment) (path more : List Segment) :
    endBehind? (p :: path) (s :: more) = if p = s then endBehind? path more else none := by
  cases more with
  | nil => simp [endBehind?]
  | cons t more =>
    by_cases hp : p = s
    · simp [endBehind?, hp]
    · simp [endBehind?, hp, Ne.symm hp]

theorem append_of_endBehind? {path row : List Segment} {s : Segment}
    (h : endBehind? path row = some s) : path ++ [s] = row := by
  obtain ⟨rfl, hlast⟩ := Option.ite_none_right_eq_some.mp h
  exact List.dropLast_append_getLast? s hlast

theorem dropLast_ne_of_endBehind? {path row : List Segment} (hpath : path ≠ [])
    (h : endBehind? path row = none) : row.dropLast ≠ path := by
  rintro rfl
  rw [endBehind?, if_pos rfl, List.getLast?_eq_none_iff] at h
  exact hpath (by rw [h]; rfl)

end Segment

namespace Node

open Segment

/-! ## The level behind a path when a row is added -/

theorem ProperForest.of_rank {trees : List Node} (h : ProperForest (Node.rank trees)) :
    ProperForest trees := by
  refine ⟨?_, fun n hn => h.proper n (mem_rank.mpr hn)⟩
  exact ((rankBy_perm outranks trees).map label).nodup_iff.mp h.distinct

theorem ProperForest.behind_rank {trees : List Node} (h : ProperForest trees) (s : Segment)
    (path : List Segment) : behind (s :: path) (Node.rank trees) = behind (s :: path) trees := by
  rw [behind, behind]
  cases hfind : trees.find? fun n => n.label = s with
  | some n =>
    have hn := List.mem_of_find?_eq_some hfind
    have hlabel : n.label = s := by simpa using List.find?_some hfind
    rw [← hlabel, h.rank.find?_label (mem_rank.mpr hn)]
  | none =>
    have hnone : (Node.rank trees).find? (fun n => n.label = s) = none := by
      rw [List.find?_eq_none] at hfind ⊢
      exact fun n hn => hfind n (mem_rank.mp hn)
    rw [hnone]

theorem behind_alter (s : Segment) (f : List Node → List Node) (path : List Segment)
    (trees : List Node) :
    behind (s :: path) (alter s f trees) = behind path (f (behind [s] trees)) := by
  induction trees with
  | nil => simp [alter, behind]
  | cons n more ih =>
    obtain ⟨other, below⟩ := n
    by_cases hother : other = s
    · simp [alter, behind, hother]
    · simpa [alter, behind, hother] using ih

theorem behind_alter_of_ne {s p : Segment} (h : p ≠ s) (f : List Node → List Node)
    (path : List Segment) (trees : List Node) :
    behind (p :: path) (alter s f trees) = behind (p :: path) trees := by
  induction trees with
  | nil => simp [alter, behind, h.symm]
  | cons n more ih =>
    obtain ⟨other, below⟩ := n
    by_cases hother : other = s
    · simp [alter, behind, hother, h.symm]
    · by_cases hp : other = p
      · simp [alter, behind, hp, h]
      · simpa [alter, behind, hother, hp] using ih

theorem behind_append (path more : List Segment) (trees : List Node) :
    behind (path ++ more) trees = behind more (behind path trees) := by
  induction path generalizing trees with
  | nil => rfl
  | cons s path ih =>
    rw [List.cons_append, behind, behind]
    split
    · exact ih _
    · cases more <;> rfl

theorem ProperForest.behind {trees : List Node} (h : ProperForest trees) (path : List Segment) :
    ProperForest (Node.behind path trees) := by
  induction path generalizing trees with
  | nil => exact h
  | cons s path ih =>
    rw [Node.behind]
    split
    · rename_i n hfind
      exact ih (h.proper n (List.mem_of_find?_eq_some hfind)).forest
    · exact properForest_nil

/-! ## Ends of a level -/

/-- The first end among siblings. -/
def firstEnd? (trees : List Node) : Option Segment := (trees.map label).find? isFinish

theorem firstEnd?_eq_head? (trees : List Node) :
    firstEnd? trees = ((trees.filter fun n => n.label.isFinish).head?).map label := by
  rw [firstEnd?, List.find?_map, List.head?_filter]
  rfl

/-- Ranking moves no end past another. -/
theorem firstEnd?_rank {trees : List Node} (h : ProperForest trees) :
    firstEnd? (rank trees) = firstEnd? trees := by
  have hstands : ∀ e ∈ trees.filter fun n => n.label.isFinish,
      e.standing.label.isLiteral = false ∧ e.standing.label.weight = 0 ∧ e.standing.waysOn = 0 := by
    intro e he
    obtain ⟨hmem, hfinish⟩ := List.mem_filter.mp he
    have hleaf := (h.proper e hmem).leaf_iff.mpr hfinish
    obtain ⟨s, children⟩ := e
    cases s with
    | finish name => exact ⟨rfl, rfl, congrArg List.length hleaf⟩
    | start | literal _ _ | slot _ | filled _ _ => cases hfinish
  have hinOrder : InOrder outranks (trees.filter fun n => n.label.isFinish) := by
    refine List.pairwise_of_forall_mem_list fun a ha b hb => ?_
    obtain ⟨hliteral, hweight, hways⟩ := hstands a ha
    obtain ⟨hliteral', hweight', hways'⟩ := hstands b hb
    exact (Standing.ties_iff.mpr ⟨hliteral'.trans hliteral.symm, hweight'.trans hweight.symm,
      hways'.trans hways.symm⟩).1
  rw [firstEnd?_eq_head?, firstEnd?_eq_head?, filter_rank hinOrder]

theorem firstEnd?_alter (s : Segment) (f : List Node → List Node) (trees : List Node) :
    firstEnd? (alter s f trees) = (firstEnd? trees).or (if s.isFinish then some s else none) := by
  rw [firstEnd?, firstEnd?, mem_label_alter]
  split
  · rename_i hmem
    by_cases hs : s.isFinish
    · have hsome : ((trees.map label).find? isFinish).isSome :=
        List.find?_isSome.mpr ⟨s, hmem, hs⟩
      rw [Option.or_of_isSome hsome]
    · rw [if_neg hs, Option.or_none]
  · rw [List.find?_append, List.find?_singleton]

/-! ## Adding a row -/

section

variable {trees : List Node} {s : Segment} {more : List Segment}

/-- A row leaves its end behind the ends that are there, and leaves nothing elsewhere, if
this is so of what follows its first segment. -/
theorem firstEnd?_behind_graft_cons (hends : s.isFinish ↔ more = [])
    (htrees : ProperForest trees) (hgraft : ProperForest (graft (s :: more) trees))
    (ih : ∀ path children, ProperForest children →
      firstEnd? (behind path (graft more children)) =
        (firstEnd? (behind path children)).or (endBehind? path more))
    (path : List Segment) :
    firstEnd? (behind path (graft (s :: more) trees)) =
      (firstEnd? (behind path trees)).or (endBehind? path (s :: more)) := by
  have haltered : ProperForest (alter s (graft more) trees) := hgraft.of_rank
  rw [graft]
  cases path with
  | nil =>
    rw [behind, behind, firstEnd?_rank haltered, firstEnd?_alter, endBehind?_nil_cons]
    simp only [hends]
  | cons p path =>
    rw [haltered.behind_rank, endBehind?_cons_cons]
    by_cases hp : p = s
    · rw [if_pos hp, hp, behind_alter, ih path _ (htrees.behind [s]), ← behind_append]
      rfl
    · rw [if_neg hp, behind_alter_of_ne hp, Option.or_none]

theorem firstEnd?_behind_graft_tail (hmore : Tail more) (hopen : ∀ s ∈ more, s.isFilled = false)
    (path : List Segment) (htrees : ProperForest trees) :
    firstEnd? (behind path (graft more trees)) =
      (firstEnd? (behind path trees)).or (endBehind? path more) := by
  induction hmore generalizing path trees with
  | finish name =>
    refine firstEnd?_behind_graft_cons (by simp [isFinish]) htrees
      (htrees.graft_tail (.finish name) hopen) (fun path children _ => ?_) path
    rw [graft, endBehind?_nil, Option.or_none]
  | literal ht hm ih =>
    refine firstEnd?_behind_graft_cons (by simp [isFinish, hm.ne_nil]) htrees
      (htrees.graft_tail (.literal ht hm) hopen) (fun path children hchildren => ?_) path
    exact ih (List.forall_mem_cons.mp hopen).2 path hchildren
  | slot hs ha hm ih =>
    refine firstEnd?_behind_graft_cons (by simp [not_isFinish_of_isSlot hs, hm.ne_nil]) htrees
      (htrees.graft_tail (.slot hs ha hm) hopen) (fun path children hchildren => ?_) path
    exact ih (List.forall_mem_cons.mp hopen).2 path hchildren

theorem firstEnd?_behind_graft {row : List Segment} (hrow : row = [] ∨ IsRow row)
    (htrees : ProperForest trees) (path : List Segment) :
    firstEnd? (behind path (graft row trees)) =
      (firstEnd? (behind path trees)).or (endBehind? path row) := by
  rcases hrow with rfl | ⟨more, rfl, hmore, hopen⟩
  · rw [graft, endBehind?_nil, Option.or_none]
  · exact firstEnd?_behind_graft_cons (by simp [isFinish, hmore.ne_nil]) htrees
      (htrees.graft_start hmore hopen)
      (fun path _ hchildren => firstEnd?_behind_graft_tail hmore hopen path hchildren) path

end

end Node

open Segment Node

/-! ## Registering -/

theorem Trie.Represents.firstEnd?_insert {t : Trie} {rows : List (List Segment)}
    (h : t.Represents rows) {template : Template}
    (hrow : template.row = [] ∨ IsRow template.row)
    (hfirst : ∀ path, firstEnd? (behind path t.roots) = rows.findSome? (endBehind? path))
    (path : List Segment) :
    firstEnd? (behind path (t.insert template).roots) =
      (rows ++ [template.row]).findSome? (endBehind? path) := by
  rw [Arena.roots_insert, List.findSome?_append, ← hfirst, List.findSome?_singleton]
  split
  · rename_i hholds
    rcases hrow with hnil | hr
    · rw [hnil, endBehind?_nil, Option.or_none]
    · -- The row was given before, so there is a first end where it leaves one.
      rw [hfirst]
      cases hend : endBehind? path template.row with
      | none => rw [Option.or_none]
      | some e =>
        have hmem := h.mem_of_holds hr hholds
        rw [Option.or_of_isSome (List.findSome?_isSome_iff.mpr ⟨_, hmem, by rw [hend]; rfl⟩)]
  · exact firstEnd?_behind_graft hrow h.forest path

/-- The first end behind a path is the one that the first of the registered templates
with an end there left. -/
theorem Catalog.Registered.firstEnd?_eq : ∀ {c : Catalog} {ts : List Template},
    c.Registered ts → ∀ path,
      firstEnd? (behind path c.trie.roots) = (ts.map Template.row).findSome? (endBehind? path)
  | _, _, .new _ _, path => by cases path <;> rfl
  | _, _, .add h ha, path => by
    obtain ⟨hcompile, rfl⟩ := Catalog.add_eq_ok ha
    rw [List.map_append]
    exact h.sound.represents.firstEnd?_insert
      (.inr (Template.wellFormed_of_compile hcompile).isRow) h.firstEnd?_eq path
  | _, _, .insert h ht, path => by
    rw [List.map_append]
    exact h.sound.represents.firstEnd?_insert ht.fit.isRow h.firstEnd?_eq path
  | _, _, .resolve _ h, path => h.firstEnd?_eq path
  | _, _, .lookup _ _ h, path => h.firstEnd?_eq path

end RouteTemplates
