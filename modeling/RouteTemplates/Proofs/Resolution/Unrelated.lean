import RouteTemplates.Proofs.Resolution.Alias

/-!
# Unrelated templates

A template that opens with a literal matters only to inputs that begin with the literal.
Registering it can make the literal, give it more ways on and rank its level again, and
the other siblings keep the order they have among themselves.  The literal itself is
passed over.  There is one thing more that a descent looks at, whether a slot is the last
of its siblings, and as a literal never stands behind a slot this stays as it was too.
-/

namespace RouteTemplates
namespace Node

open Segment

variable {trees : List Node} {input : Text}

theorem not_isLiteral_behind_slot {n : Node} {more : List Node}
    (h : InOrder outranks (n :: more)) (hn : n.label.isSlot) :
    ∀ m ∈ more, m.label.isLiteral = false := by
  intro m hm
  have hout := (inOrder_cons.mp h).1 m hm
  refine Bool.eq_false_iff.mpr fun hliteral => ?_
  have hboth : n.label.isLiteral := (Standing.not_outranks_iff.mp hout).1 hliteral
  exact absurd hn (Bool.eq_false_iff.mp (not_isSlot_of_isLiteral hboth))

/-- The siblings that do not have the label. -/
def without (s : Segment) (trees : List Node) : List Node := trees.filter fun n => n.label ≠ s

theorem without_cons_of_eq {s : Segment} {n : Node} (h : n.label = s) (more : List Node) :
    without s (n :: more) = without s more :=
  List.filter_cons_of_neg (by simpa using h)

theorem without_cons_of_ne {s : Segment} {n : Node} (h : n.label ≠ s) (more : List Node) :
    without s (n :: more) = n :: without s more :=
  List.filter_cons_of_pos (by simpa using h)

theorem without_alter (s : Segment) (f : List Node → List Node) (trees : List Node) :
    without s (alter s f trees) = without s trees := by
  induction trees with
  | nil => simp [alter, without]
  | cons n more ih =>
    obtain ⟨other, below⟩ := n
    by_cases hother : other = s
    · simp [alter, without, hother]
    · simpa [alter, without, hother] using ih

/-- Adding a path below a label leaves the other siblings, and their order, as they were. -/
theorem without_graft (h : InOrder outranks trees) (s : Segment) (path : List Segment) :
    without s (graft (s :: path) trees) = without s trees := by
  have hothers : InOrder outranks (without s (alter s (graft path) trees)) := by
    rw [without_alter]
    exact List.Pairwise.filter _ h
  exact (filter_rank hothers).trans (without_alter s (graft path) trees)

/-- A literal that the input does not begin with could as well not be there. -/
theorem descend_without (h : InOrder outranks trees) {role : LiteralRole} {text : Text}
    (hinput : ¬ text <+: input) :
    descend (without (.literal role text) trees) input = descend trees input := by
  induction trees with
  | nil => rfl
  | cons n more ih =>
    have hmore := ih (inOrder_cons.mp h).2
    by_cases hn : n.label = .literal role text
    · have hpassed : n.take? more.isEmpty input = none := by
        obtain ⟨s, children⟩ := n
        obtain rfl : s = .literal role text := hn
        rw [take?, Text.isPrefixOf?_eq_none_iff.mpr hinput]
      rw [without_cons_of_eq hn, hmore, descend, hpassed]
    · have hlast : n.label.isSlot →
          (without (.literal role text) more).isEmpty = more.isEmpty := by
        intro hslot
        -- No literal stands behind the slot, so nothing was left out there.
        have hall : without (.literal role text) more = more := by
          refine List.filter_eq_self.mpr fun m hm => ?_
          have hliteral := not_isLiteral_behind_slot h hslot m hm
          refine decide_eq_true fun hlabel => ?_
          rw [hlabel] at hliteral
          cases hliteral
        rw [hall]
      rw [without_cons_of_ne hn, descend, descend, take?_last_congr input hlast]
      cases n.take? more.isEmpty input with
      | some d => rfl
      | none => exact hmore

theorem descend_graft_unrelated (h : InOrder outranks trees) {role : LiteralRole} {text : Text}
    (hinput : ¬ text <+: input) (path : List Segment) :
    descend (graft (.literal role text :: path) trees) input = descend trees input := by
  have hgraft : InOrder outranks (graft (.literal role text :: path) trees) := inOrder_rank _
  rw [← descend_without hgraft hinput, without_graft h, descend_without h hinput]

end Node

open Segment Node

/-- A template that opens with a literal changes nothing for an input that does not begin
with the literal. -/
theorem Catalog.Registered.resolve_insert_unrelated {c : Catalog} {ts : List Template}
    (h : c.Registered ts) {t : Template} {role : LiteralRole} {text : Text}
    {more : List Segment} (hseg : t.segments = .start :: .literal role text :: more)
    {input : Text} (hinput : ¬ text <+: input) :
    ((c.insert t).resolve input).1 = (c.resolve input).1 := by
  have hrow : t.row = .start :: .literal role text :: more.map unfilled := by
    rw [Template.row, Template.unfilled, hseg]
    rfl
  change (c.trie.insert t).resolve? input = c.trie.resolve? input
  by_cases hholds : holds t.row c.trie.roots
  · refine Trie.resolve?_eq_of_descend_eq ?_
    rw [Trie.descend, Trie.descend, Arena.roots_insert, if_pos hholds]
  have hroots : (c.trie.insert t).roots =
      graft (.start :: .literal role text :: more.map unfilled) c.trie.roots := by
    rw [Arena.roots_insert, if_neg hholds, hrow]
  rcases h.sound.represents.root with hnil | ⟨children, hroot⟩
  · rw [Trie.resolve?_eq_none, Trie.resolve?_eq_none]
    · rw [Trie.descend, hnil]
      rfl
    · rw [hnil] at hroots
      have hmade : (c.trie.insert t).roots =
          [.mk .start (graft (.literal role text :: more.map unfilled) [])] := hroots
      rw [Trie.descend, hmade, descend_start, descend_graft_unrelated inOrder_nil hinput]
      rfl
  · have hchildren : InOrder outranks children :=
      (h.ranked.ranked (.mk .start children) (by simp [hroot])).forest.inOrder
    refine Trie.resolve?_eq_of_descend_eq ?_
    rw [Trie.descend, Trie.descend, hroots, hroot, Trie.graft_start_eq, descend_start,
      descend_start, descend_graft_unrelated hchildren hinput]

/-- The template gives a literal a second way on, which moves it ahead of the literal
that the first input is, and the second input fills the slot behind them with nothing. -/
theorem Catalog.Registered.resolve_insert_unrelated_of_users :
    let rows : List (List Segment) := [
      [.start, .slot ['<', 'x', '>'], .finish none],
      [.start, .literal .plain ['/', 'a'], .finish none],
      [.start, .literal .plain ['/', 'u'], .finish none]]
    let ts := rows.map Template.counted
    let c := ts.foldl Catalog.insert (.new .braces .standard)
    let t : Template := .counted
      [.start, .literal .plain ['/', 'u'], .slot ['<', 'n', '>'], .finish (some ['u'])]
    (c.insert t).trie.nodeCount ≠ c.trie.nodeCount ∧ ¬ ['/', 'u'] <+: ['/', 'a'] ∧
      (c.resolve ['/', 'a']).1.isSome ∧
      ((c.insert t).resolve ['/', 'a']).1 = (c.resolve ['/', 'a']).1 ∧
      (c.resolve []).1.isSome ∧ ((c.insert t).resolve []).1 = (c.resolve []).1 := by
  intro rows ts c t
  have hregistered : c.Registered ts := Catalog.registered_foldl_ofSegments _ _ (by decide)
  exact ⟨by decide, by decide, by decide, hregistered.resolve_insert_unrelated rfl (by decide),
    by decide, hregistered.resolve_insert_unrelated rfl (by decide)⟩

end RouteTemplates
