import RouteTemplates.Proofs.Scratch.Accounting
import RouteTemplates.Proofs.Trie.Choice
import RouteTemplates.Proofs.Trie.Contents

/-!
# The order of registration

Templates can be registered in any order.  The rows are the same, so the paths and
all counts are, and the tries differ at most in the order of siblings that tie.
When the trie is decisive an input is resolved alike as well.
-/

namespace RouteTemplates

open Segment Node

/-! ## Counts -/

theorem longestOf_eq_of_perm {rows rows' : List (List Segment)} (h : rows.Perm rows') :
    longestOf rows = longestOf rows' := by
  have : RightCommutative (max : Nat → Nat → Nat) := ⟨fun a b c => by omega⟩
  exact (h.map List.length).foldl_eq 0

theorem Trie.Represents.counts_eq {t t' : Trie} {rows rows' : List (List Segment)}
    (h : t.Represents rows) (h' : t'.Represents rows') (hperm : rows.Perm rows') :
    t.size = t'.size ∧ t.nodeCount = t'.nodeCount ∧ t.longest = t'.longest := by
  refine ⟨?_, ?_, ?_⟩
  · rw [h.size_eq, h'.size_eq]
    exact (hperm.filter _).dedup.length_eq
  · rw [h.nodeCount_eq, h'.nodeCount_eq]
    exact ((hperm.flatMap_right _).filter _).dedup.length_eq
  · rw [h.longest_eq, h'.longest_eq, longestOf_eq_of_perm hperm]

/-! ## Descents -/

theorem Trie.Represents.alike {t t' : Trie} {rows rows' : List (List Segment)}
    (h : t.Represents rows) (h' : t'.Represents rows') (hperm : rows.Perm rows')
    (hr : RankedForest t.roots) (hr' : RankedForest t'.roots) : Alike t.roots t'.roots where
  paths q := by
    rw [h.mem_paths, h'.mem_paths]
    simp only [hperm.mem_iff]
  proper := h.forest
  proper' := h'.forest
  ranked := hr
  ranked' := hr'

theorem Trie.Represents.inner {t : Trie} {rows : List (List Segment)} (h : t.Represents rows)
    {children : List Node} (hroot : t.roots = [.mk .start children]) :
    ∀ q ∈ pathsOf children, ∀ s ∈ q, Inner s := by
  intro q hq s hs
  have hpath : .start :: q ∈ pathsOf t.roots := by
    rw [hroot]
    exact mem_pathsOf.mpr ⟨_, List.mem_singleton_self _, .inr ⟨q, hq, rfl⟩⟩
  obtain ⟨_, row, hrow, hprefix⟩ := (h.mem_paths _).mp hpath
  rcases h.isRow row hrow with rfl | ⟨more, rfl, htail, _⟩
  · cases List.prefix_nil.mp hprefix
  · exact htail.inner s ((List.cons_prefix_cons.mp hprefix).2.subset hs)

theorem Trie.Represents.descend_eq {t t' : Trie} {rows rows' : List (List Segment)}
    (h : t.Represents rows) (h' : t'.Represents rows') (halike : Alike t.roots t'.roots)
    (hdecisive : Decisive t.roots) (input : Text) : t.descend input = t'.descend input := by
  rw [Trie.descend, Trie.descend]
  rcases h.root with hnil | ⟨children, hroot⟩
  · rw [hnil, halike.eq_nil_iff.mp hnil]
  rcases h'.root with hnil' | ⟨children', hroot'⟩
  · rw [hnil', halike.eq_nil_iff.mpr hnil']
  have hinner := h.inner hroot
  rw [hroot, hroot'] at halike
  rw [hroot] at hdecisive
  have hstart : Node.mk .start children ∈ [Node.mk .start children] := List.mem_singleton_self _
  have hbelow := halike.below hstart (List.mem_singleton_self _) rfl
  have hsame := (Alike.descents_eq _ children' hbelow (hdecisive.children hstart) hinner).1 input
  rw [hroot, hroot', descend_start, descend_start]
  exact congrArg (Descent.cons .start) hsame

/-- Catalogs that were given the same templates in different orders, and have the same
ceiling, agree in their counts and in the room they foresee, and their tries have the
same ways to the leaves.  If one of the tries is decisive, they resolve each input to
the same template. -/
theorem Catalog.Registered.resolve_eq_of_perm {c c' : Catalog} {ts us : List Template}
    (h : c.Registered ts) (h' : c'.Registered us) (hperm : ts.Perm us)
    (hceiling : c.scratch.steps.ceiling = c'.scratch.steps.ceiling) :
    c.trie.size = c'.trie.size ∧ c.trie.nodeCount = c'.trie.nodeCount ∧
      c.trie.longest = c'.trie.longest ∧ c.scratch.steps.initial = c'.scratch.steps.initial ∧
      (leafPathsOf c.trie.roots).Perm (leafPathsOf c'.trie.roots) ∧
      (Decisive c.trie.roots → ∀ input, (c.resolve input).1 = (c'.resolve input).1) := by
  have hrows := hperm.map Template.row
  have hrep := h.sound.represents
  have hrep' := h'.sound.represents
  obtain ⟨hsize, hnodes, hlongest⟩ := hrep.counts_eq hrep' hrows
  have halike := hrep.alike hrep' hrows h.ranked h'.ranked
  refine ⟨hsize, hnodes, hlongest, ?_, ?_, fun hdecisive input => ?_⟩
  · rw [h.initial_eq, h'.initial_eq, hlongest, hceiling]
  · refine (List.perm_ext_iff_of_nodup hrep.madeOf.nodup_leafPaths
      hrep'.madeOf.nodup_leafPaths).mpr fun q => ?_
    rw [hrep.forest.mem_leafPathsOf, hrep'.forest.mem_leafPathsOf, halike.paths]
  · change c.trie.resolve? input = c'.trie.resolve? input
    rw [Trie.resolve?, Trie.resolve?, hrep.descend_eq hrep' halike hdecisive]

/-- Two literals of one length stand in the order of registration, and either order
resolves each input alike. -/
theorem Catalog.Registered.resolve_eq_of_perm_of_users :
    let users : Template := .counted [.start, .literal .plain ['/', 'u'], .finish none]
    let views : Template := .counted [.start, .literal .plain ['/', 'v'], .finish none]
    let others : Template := .counted
      [.start, .literal .plain ['/'], .slot ['<', 'x', '>'], .finish none]
    let c := (((Catalog.new .braces .standard).insert users).insert views).insert others
    let c' := (((Catalog.new .braces .standard).insert others).insert views).insert users
    leafPathsOf c.trie.roots ≠ leafPathsOf c'.trie.roots ∧ c'.trie.size = 3 ∧
      ∀ input, (c.resolve input).1 = (c'.resolve input).1 := by
  intro users views others c c'
  have husers : Template.ofSegments users.segments = .ok users := rfl
  have hviews : Template.ofSegments views.segments = .ok views := rfl
  have hothers : Template.ofSegments others.segments = .ok others := rfl
  have h : c.Registered [users, views, others] :=
    .insert (.insert (.insert (.new _ _) (.ofSegments husers)) (.ofSegments hviews))
      (.ofSegments hothers)
  have h' : c'.Registered [others, views, users] :=
    .insert (.insert (.insert (.new _ _) (.ofSegments hothers)) (.ofSegments hviews))
      (.ofSegments husers)
  have hperm : [users, views, others].Perm [others, views, users] := by decide
  obtain ⟨hsize, _, _, _, _, hresolve⟩ := h.resolve_eq_of_perm h' hperm rfl
  have hdecisive : Decisive c.trie.roots := by decide
  exact ⟨by decide, hsize.symm.trans rfl, hresolve hdecisive⟩

end RouteTemplates
