import RouteTemplates.Proofs.Trie.Represents

/-!
# Ranked tries

A row of siblings is in order when none of them stands behind one that it outranks.
Ranking puts siblings in order and exchanges no two of them for nothing: an item
that another does not outrank stays in front of it.

Adding a template changes the number of ways on along one path, and ranks each level
of that path.  So all levels of a trie are in order after each registration, the
ones that were not ranked as well.
-/

namespace RouteTemplates

/-! ## Ranking a row -/

section Ranking

variable {α : Type} {outranks : α → α → Bool}

def InOrder (outranks : α → α → Bool) (siblings : List α) : Prop :=
  siblings.Pairwise fun a b => outranks b a = false

theorem inOrder_nil : InOrder outranks [] := .nil

theorem inOrder_cons {a : α} {siblings : List α} :
    InOrder outranks (a :: siblings) ↔
      (∀ b ∈ siblings, outranks b a = false) ∧ InOrder outranks siblings :=
  List.pairwise_cons

theorem InOrder.of_pair {siblings : List α} (h : InOrder outranks siblings) {a b : α}
    (hab : [a, b].Sublist siblings) : outranks b a = false := by
  have hpair : InOrder outranks [a, b] := List.Pairwise.sublist hab h
  exact (inOrder_cons.mp hpair).1 b (List.mem_singleton_self b)

theorem sublist_placeBy (a : α) (siblings : List α) :
    siblings.Sublist (placeBy outranks a siblings) := by
  induction siblings with
  | nil => exact List.nil_sublist _
  | cons b more ih =>
    rw [placeBy]
    split
    · exact ih.cons_cons b
    · exact List.sublist_cons_self a (b :: more)

theorem pair_sublist_placeBy {a b : α} {siblings : List α} (hb : b ∈ siblings)
    (h : outranks b a = false) : [a, b].Sublist (placeBy outranks a siblings) := by
  induction siblings with
  | nil => cases hb
  | cons c more ih =>
    rw [placeBy]
    split
    · rename_i hc
      have hne : b ≠ c := by
        intro heq
        rw [heq, hc] at h
        cases h
      exact (ih ((List.mem_cons.mp hb).resolve_left hne)).cons c
    · exact (List.singleton_sublist.mpr hb).cons_cons a

/-- Ranking is stable. -/
theorem pair_sublist_rankBy {a b : α} {siblings : List α} (hab : [a, b].Sublist siblings)
    (h : outranks b a = false) : [a, b].Sublist (rankBy outranks siblings) := by
  induction siblings with
  | nil => cases hab
  | cons c more ih =>
    rw [rankBy, List.foldr_cons]
    cases hab with
    | cons _ hmore => exact (ih hmore).trans (sublist_placeBy c _)
    | cons_cons _ hmore =>
      have hb : b ∈ rankBy outranks more :=
        (rankBy_perm outranks more).mem_iff.mpr (List.singleton_sublist.mp hmore)
      exact pair_sublist_placeBy hb h

theorem placeBy_eq_cons {a : α} {siblings : List α} (h : ∀ b ∈ siblings, outranks b a = false) :
    placeBy outranks a siblings = a :: siblings := by
  cases siblings with
  | nil => rfl
  | cons b more => rw [placeBy, h b List.mem_cons_self, if_neg Bool.false_ne_true]

theorem InOrder.rankBy_eq {siblings : List α} (h : InOrder outranks siblings) :
    rankBy outranks siblings = siblings := by
  induction siblings with
  | nil => rfl
  | cons a more ih =>
    obtain ⟨ha, hmore⟩ := inOrder_cons.mp h
    have hrest : more.foldr (placeBy outranks) [] = more := ih hmore
    rw [rankBy, List.foldr_cons, hrest, placeBy_eq_cons ha]

section

variable (hasymm : ∀ a b, outranks a b → outranks b a = false)
  (htrans : ∀ a b c, outranks a b = false → outranks b c = false → outranks a c = false)

include hasymm htrans

theorem InOrder.placeBy {siblings : List α} (h : InOrder outranks siblings) (a : α) :
    InOrder outranks (placeBy outranks a siblings) := by
  induction siblings with
  | nil => exact List.pairwise_singleton _ a
  | cons b more ih =>
    obtain ⟨hb, hmore⟩ := inOrder_cons.mp h
    rw [RouteTemplates.placeBy]
    split
    · rename_i hba
      refine inOrder_cons.mpr ⟨fun c hc => ?_, ih hmore⟩
      rcases List.mem_cons.mp ((placeBy_perm outranks a more).mem_iff.mp hc) with hc | hc
      · rw [hc]
        exact hasymm b a hba
      · exact hb c hc
    · rename_i hba
      have hfirst : outranks b a = false := Bool.eq_false_iff.mpr hba
      refine inOrder_cons.mpr ⟨fun c hc => ?_, h⟩
      rcases List.mem_cons.mp hc with hc | hc
      · rw [hc]
        exact hfirst
      · exact htrans c b a (hb c hc) hfirst

theorem inOrder_rankBy (siblings : List α) : InOrder outranks (rankBy outranks siblings) := by
  induction siblings with
  | nil => exact inOrder_nil
  | cons a more ih => exact InOrder.placeBy hasymm htrans ih a

omit hasymm in
theorem InOrder.filter_placeBy {siblings : List α} (h : InOrder outranks siblings)
    (p : α → Bool) (a : α) :
    (RouteTemplates.placeBy outranks a siblings).filter p =
      if p a then RouteTemplates.placeBy outranks a (siblings.filter p)
      else siblings.filter p := by
  induction siblings with
  | nil => rw [List.filter_nil, RouteTemplates.placeBy, List.filter_singleton, cond_eq_ite]
  | cons b more ih =>
    obtain ⟨hb, hmore⟩ := inOrder_cons.mp h
    rw [RouteTemplates.placeBy]
    split
    · rename_i hba
      rw [List.filter_cons, List.filter_cons, ih hmore]
      by_cases hpa : p a <;> by_cases hpb : p b <;>
        simp [hpa, hpb, RouteTemplates.placeBy, hba]
    · rename_i hba
      have hfirst : outranks b a = false := Bool.eq_false_iff.mpr hba
      -- None of those left outranks the item, so in front of them it stays in front.
      have hnone : ∀ c ∈ (b :: more).filter p, outranks c a = false := by
        intro c hc
        rcases List.mem_cons.mp (List.mem_of_mem_filter hc) with hc | hc
        · rw [hc]
          exact hfirst
        · exact htrans c b a (hb c hc) hfirst
      rw [List.filter_cons, placeBy_eq_cons hnone]

/-- Ranking some of the siblings alone puts them in the order they have among all. -/
theorem filter_rankBy (p : α → Bool) (siblings : List α) :
    (rankBy outranks siblings).filter p = rankBy outranks (siblings.filter p) := by
  induction siblings with
  | nil => rfl
  | cons a more ih =>
    have hplace := (inOrder_rankBy hasymm htrans more).filter_placeBy htrans p a
    rw [ih] at hplace
    rw [List.filter_cons]
    by_cases ha : p a
    · rw [if_pos ha] at hplace ⊢
      exact hplace
    · rw [if_neg ha] at hplace ⊢
      exact hplace

end

end Ranking

/-! ## Standings -/

namespace Standing

theorem outranks_iff {a b : Standing} :
    a.outranks b ↔
      (a.label.isLiteral = true ∧ b.label.isLiteral = false) ∨
      (a.label.isLiteral = b.label.isLiteral ∧
        (b.label.weight < a.label.weight ∨
          (a.label.weight = b.label.weight ∧ b.waysOn < a.waysOn))) := by
  unfold outranks
  by_cases hliteral : a.label.isLiteral = b.label.isLiteral
  · by_cases hweight : a.label.weight = b.label.weight
    · simp [hliteral, hweight]
    · simp [hliteral, hweight]
  · cases ha : a.label.isLiteral <;> cases hb : b.label.isLiteral <;> simp_all

theorem not_outranks_iff {a b : Standing} :
    a.outranks b = false ↔
      (a.label.isLiteral = true → b.label.isLiteral = true) ∧
      (a.label.isLiteral = b.label.isLiteral →
        a.label.weight ≤ b.label.weight ∧
          (a.label.weight = b.label.weight → a.waysOn ≤ b.waysOn)) := by
  rw [Bool.eq_false_iff, ne_eq, outranks_iff]
  cases a.label.isLiteral <;> cases b.label.isLiteral <;> simp

theorem outranks_asymm {a b : Standing} (h : a.outranks b) : b.outranks a = false := by
  rw [not_outranks_iff]
  rcases outranks_iff.mp h with ⟨ha, hb⟩ | ⟨hliteral, hless⟩
  · simp [ha, hb]
  · refine ⟨fun hb => hliteral.trans hb, fun _ => ?_⟩
    omega

theorem not_outranks_trans {a b c : Standing} (hab : a.outranks b = false)
    (hbc : b.outranks c = false) : a.outranks c = false := by
  rw [not_outranks_iff] at hab hbc ⊢
  obtain ⟨hliteralAB, hlessAB⟩ := hab
  obtain ⟨hliteralBC, hlessBC⟩ := hbc
  refine ⟨fun ha => hliteralBC (hliteralAB ha), fun hac => ?_⟩
  have hab : a.label.isLiteral = b.label.isLiteral := by
    cases hb : b.label.isLiteral <;> simp_all
  have hbounds := hlessAB hab
  have hbounds' := hlessBC (hab.symm.trans hac)
  omega

/-- Neither of the two has to be tried before the other. -/
def Ties (a b : Standing) : Prop := a.outranks b = false ∧ b.outranks a = false

instance (a b : Standing) : Decidable (a.Ties b) :=
  inferInstanceAs (Decidable (a.outranks b = false ∧ b.outranks a = false))

theorem ties_iff {a b : Standing} :
    a.Ties b ↔ a.label.isLiteral = b.label.isLiteral ∧ a.label.weight = b.label.weight ∧
      a.waysOn = b.waysOn := by
  rw [Ties, not_outranks_iff, not_outranks_iff]
  cases a.label.isLiteral <;> cases b.label.isLiteral <;> simp <;> omega

end Standing

/-! ## Tries -/

namespace Node

inductive Ranked : Node → Prop
  | mk {label : Segment} {children : List Node} :
      InOrder outranks children → (∀ n ∈ children, Ranked n) → Ranked (.mk label children)

/-- Trees in order, with all levels below them. -/
structure RankedForest (trees : List Node) : Prop where
  inOrder : InOrder outranks trees
  ranked : ∀ n ∈ trees, n.Ranked

theorem rankedForest_nil : RankedForest [] := ⟨inOrder_nil, by simp⟩

theorem Ranked.forest {n : Node} (h : n.Ranked) : RankedForest n.children := by
  cases h with
  | mk hi hr => exact ⟨hi, hr⟩

theorem inOrder_rank (trees : List Node) : InOrder outranks (rank trees) := by
  refine inOrder_rankBy ?_ ?_ trees
  · intro a b h
    exact Standing.outranks_asymm h
  · intro a b c hab hbc
    exact Standing.not_outranks_trans hab hbc

/-- Ranking moves none of some siblings that are in order among themselves. -/
theorem filter_rank {p : Node → Bool} {trees : List Node}
    (h : InOrder outranks (trees.filter p)) : (rank trees).filter p = trees.filter p := by
  refine (filter_rankBy ?_ ?_ p trees).trans h.rankBy_eq
  · intro a b h
    exact Standing.outranks_asymm h
  · intro a b c hab hbc
    exact Standing.not_outranks_trans hab hbc

theorem mem_alter {s : Segment} {f : List Node → List Node} {trees : List Node} {n : Node}
    (h : n ∈ alter s f trees) :
    n ∈ trees ∨ ∃ children, (children = [] ∨ mk s children ∈ trees) ∧ n = mk s (f children) := by
  induction trees with
  | nil => exact .inr ⟨[], .inl rfl, List.mem_singleton.mp h⟩
  | cons m more ih =>
    obtain ⟨other, below⟩ := m
    rw [alter] at h
    by_cases hs : other = s
    · subst hs
      rw [if_pos rfl] at h
      rcases List.mem_cons.mp h with h | h
      · exact .inr ⟨below, .inr List.mem_cons_self, h⟩
      · exact .inl (List.mem_cons_of_mem _ h)
    · rw [if_neg hs] at h
      rcases List.mem_cons.mp h with h | h
      · exact .inl (by rw [h]; exact List.mem_cons_self)
      · rcases ih h with h | ⟨children, hc, h⟩
        · exact .inl (List.mem_cons_of_mem _ h)
        · exact .inr ⟨children, hc.imp_right (List.mem_cons_of_mem _), h⟩

/-- The levels along the path are ranked, and the others are as they were. -/
theorem RankedForest.graft {trees : List Node} (h : RankedForest trees) (path : List Segment) :
    RankedForest (graft path trees) := by
  induction path generalizing trees with
  | nil => exact h
  | cons s path ih =>
    refine ⟨inOrder_rank _, fun n hn => ?_⟩
    rcases mem_alter (mem_rank.mp hn) with hold | ⟨children, hc, rfl⟩
    · exact h.ranked n hold
    · have hbelow : RankedForest children := by
        rcases hc with rfl | hc
        · exact rankedForest_nil
        · exact (h.ranked _ hc).forest
      exact .mk (ih hbelow).inOrder (ih hbelow).ranked

end Node

namespace Trie

theorem rankedForest_insert {t : Trie} (h : Node.RankedForest t.roots) (template : Template) :
    Node.RankedForest (t.insert template).roots := by
  rw [Trie.insert]
  split
  · exact h
  · exact h.graft _

theorem rankedForest_foldl (templates : List Template) :
    Node.RankedForest (templates.foldl Trie.insert .empty).roots := by
  induction templates using List.reverseRecOn with
  | nil => exact Node.rankedForest_nil
  | append_singleton templates t ih =>
    rw [List.foldl_concat]
    exact rankedForest_insert ih t

end Trie
end RouteTemplates
