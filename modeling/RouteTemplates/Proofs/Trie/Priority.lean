import RouteTemplates.Proofs.History
import RouteTemplates.Proofs.Trie.Continuations

/-!
# The order of siblings

The order in which siblings are tried looks at what they are and at how many children
they have now.  A registration changes the numbers of children along one path and ranks
the levels of that path only, and the other levels turn out to need no ranking.  What
the order says of two siblings is spelled out here, with what follows from it: a plain
literal has weight and a separator has none, a slot has children and an end has none.
So the last of some siblings tells something of all of them.
-/

namespace RouteTemplates
namespace Node

open Segment

/-- How `a` and `b` compare if `a` stands before its sibling `b`. -/
structure Precedes (a b : Node) : Prop where
  literals_first : b.label.isLiteral → a.label.isLiteral
  heavier_first : a.label.isLiteral = b.label.isLiteral → b.label.weight ≤ a.label.weight
  wider_first : a.label.isLiteral = b.label.isLiteral → a.label.weight = b.label.weight →
    b.children.length ≤ a.children.length
  plain_first : isSeparator a.label → isPlain b.label = false
  slots_first : a.label.isFinish → b.label.isSlot = false

theorem precedes_of_not_outranks {a b : Node} (ha : a.Proper) (hb : b.Proper)
    (hinner : Inner b.label) (h : b.outranks a = false) : a.Precedes b := by
  obtain ⟨hliteral, hless⟩ := Standing.not_outranks_iff.mp h
  refine ⟨hliteral, fun heq => (hless heq.symm).1,
    fun heq hweight => (hless heq.symm).2 hweight.symm, fun hseparator => ?_, fun hfinish => ?_⟩
  · by_contra hplain
    rw [Bool.not_eq_false] at hplain
    have hsame := (isLiteral_of_isPlain hplain).trans (isLiteral_of_isSeparator hseparator).symm
    have hweight : b.label.weight ≤ a.label.weight := (hless hsame).1
    have hpos := hinner.weight_pos hplain
    rw [weight_of_not_isPlain (isPlain_eq_false_of_isSeparator hseparator)] at hweight
    omega
  · by_contra hslot
    rw [Bool.not_eq_false] at hslot
    have hb' := isFinish_of_not_outranks hb ha hfinish h
    rw [not_isFinish_of_isSlot hslot] at hb'
    cases hb'

theorem Precedes.isPlain {a b : Node} (h : a.Precedes b) (hb : isPlain b.label) :
    isPlain a.label := by
  refine (isPlain_or_isSeparator (h.literals_first (isLiteral_of_isPlain hb))).resolve_right ?_
  intro hseparator
  rw [h.plain_first hseparator] at hb
  cases hb

theorem Level.pairwise_precedes {rows : List (List Segment)} {path : List Segment}
    {trees : List Node} (h : Level rows path trees) (hpath : path ≠ []) :
    trees.Pairwise Precedes := by
  refine h.ranked.inOrder.imp_of_mem fun {a b} ha hb hout => ?_
  exact precedes_of_not_outranks (h.proper.proper a ha) (h.proper.proper b hb)
    (h.inner hpath hb) hout

section

variable {rows : List (List Segment)} {path : List Segment} {before after : List Node}
  {n m : Node}

/-- What can follow the path, and is no label before a node, is the label of the node or
of one that it precedes. -/
theorem Level.eq_or_precedes (h : Level rows path (before ++ n :: after)) (hpath : path ≠ [])
    {s : Segment} (hs : s ∈ continuations rows path) (hbefore : ∀ m ∈ before, m.label ≠ s) :
    n.label = s ∨ ∃ m ∈ before ++ n :: after, m.label = s ∧ n.Precedes m := by
  obtain ⟨m, hm, hlabel⟩ := h.exists_of_mem hs
  have hordered := (List.pairwise_append.mp (h.pairwise_precedes hpath)).2.1
  rcases List.mem_append.mp hm with hmem | hmem
  · exact absurd hlabel (hbefore m hmem)
  · rcases List.mem_cons.mp hmem with heq | hafter
    · exact .inl (heq ▸ hlabel)
    · exact .inr ⟨m, hm, hlabel, List.rel_of_pairwise_cons hordered hafter⟩

theorem Level.precedes_last (h : Level rows path (before ++ [n])) (hpath : path ≠ [])
    (hm : m ∈ before) : m.Precedes n :=
  (List.pairwise_append.mp (h.pairwise_precedes hpath)).2.2 m hm n (List.mem_singleton_self n)

/-- The last of some siblings is a slot only if none of them is an end. -/
theorem Level.finish_not_mem (h : Level rows path (before ++ [n])) (hpath : path ≠ [])
    (hslot : n.label.isSlot) (name : Option Text) : .finish name ∉ continuations rows path := by
  intro hmem
  obtain ⟨m, hm, hlabel⟩ := h.exists_of_mem hmem
  rcases List.mem_append.mp hm with hm | hm
  · rw [(h.precedes_last hpath hm).slots_first (by rw [hlabel]; rfl)] at hslot
    cases hslot
  · rw [← List.mem_singleton.mp hm, hlabel] at hslot
    cases hslot

/-- The last of some siblings is a literal only if none of them is a slot. -/
theorem Level.last_not_isLiteral (h : Level rows path (before ++ [n])) (hpath : path ≠ [])
    (hm : m ∈ before ++ [n]) (hslot : m.label.isSlot) : n.label.isLiteral = false := by
  by_contra hliteral
  rw [Bool.not_eq_false] at hliteral
  have hmLiteral : m.label.isLiteral := by
    rcases List.mem_append.mp hm with hm | hm
    · exact (h.precedes_last hpath hm).literals_first hliteral
    · rwa [List.mem_singleton.mp hm]
  rw [not_isSlot_of_isLiteral hmLiteral] at hslot
  cases hslot

end

end Node

open Segment Node

/-- After any history each sibling precedes all that stand behind it, among the roots
and among the children of every node, wherever the last registration went. -/
theorem Catalog.Registered.siblings_precede {c : Catalog} {ts : List Template}
    (h : c.Registered ts) :
    c.trie.roots.Pairwise Precedes ∧ ∀ n ∈ nodesOf c.trie.roots, n.children.Pairwise Precedes := by
  have hrep := h.sound.represents
  refine ⟨?_, fun n hn => ?_⟩
  · rcases hrep.root with hnil | ⟨children, hroot⟩
    · rw [hnil]
      exact .nil
    · rw [hroot]
      exact List.pairwise_singleton _ _
  · obtain ⟨before, hlevel⟩ := (hrep.level h.ranked).exists_of_mem_nodesOf hn
    exact hlevel.pairwise_precedes (by simp)

/-- Below the start stand two plain literals, a separator and two slots.  The last
template gives the slot `b` a second way on, and the one before it a second way on to
the longer literal. -/
def mixedTemplates : List Template :=
  [.counted [.start, .slot ['<', 'a', '>'], .finish none],
    .counted [.start, .slot ['<', 'b', '>'], .finish none],
    .counted [.start, .literal .separator ['/', '/', '/'], .finish none],
    .counted [.start, .literal .plain ['c'], .finish none],
    .counted [.start, .literal .plain ['é'], .finish (some ['n'])],
    .counted [.start, .literal .plain ['é'], .slot ['<', 'x', '>'], .finish none],
    .counted [.start, .slot ['<', 'b', '>'], .literal .plain ['/'], .finish none]]

theorem Catalog.Registered.siblings_precede_of_mixed :
    let c := mixedTemplates.foldl Catalog.insert (.new .braces .standard)
    ∃ start ∈ c.trie.roots, start.children.Pairwise Precedes ∧
      start.children.map label = [.literal .plain ['é'], .literal .plain ['c'],
        .literal .separator ['/', '/', '/'], .slot ['<', 'b', '>'], .slot ['<', 'a', '>']] := by
  intro c
  have hregistered : c.Registered mixedTemplates :=
    Catalog.registered_foldl_ofSegments _ _ (by decide)
  obtain ⟨_, hchildren⟩ := hregistered.siblings_precede
  have hroot : ∃ children, c.trie.roots = [.mk .start children] := ⟨_, rfl⟩
  obtain ⟨children, hroot⟩ := hroot
  refine ⟨.mk .start children, by simp [hroot], hchildren _ ?_, ?_⟩
  · rw [hroot]
    exact mem_nodesOf.mpr ⟨_, List.mem_singleton_self _, .inl rfl⟩
  · have hlabels : c.trie.roots.flatMap (fun n => n.children.map label) = [.literal .plain ['é'],
        .literal .plain ['c'], .literal .separator ['/', '/', '/'], .slot ['<', 'b', '>'],
        .slot ['<', 'a', '>']] := by decide
    simpa [hroot] using hlabels

end RouteTemplates
