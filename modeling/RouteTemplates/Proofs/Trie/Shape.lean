import RouteTemplates.Proofs.Template.WellFormed
import RouteTemplates.Proofs.Trie.Paths

/-!
# The shape of a trie

What can be said of a trie node by node: siblings have different labels, the
leaves are the ends, nothing is filled, and what follows a slot bounds its value.
Adding the row of a template keeps all this.  With it the paths do not repeat, a
path to a leaf is a path with an end, and following labels from the roots finds
each path there is.
-/

namespace RouteTemplates
namespace Node

open Segment

inductive Proper : Node → Prop
  | mk {label : Segment} {children : List Node} :
      (children = [] ↔ label.isFinish) → label.isFilled = false →
      (label.isSlot → ∀ n ∈ children, n.label.isLiteral ∨ n.label.isFinish) →
      (children.map Node.label).Nodup → (∀ n ∈ children, Proper n) → Proper (.mk label children)

/-- Trees that can be siblings: proper each, and told apart by their labels. -/
structure ProperForest (trees : List Node) : Prop where
  distinct : (trees.map label).Nodup
  proper : ∀ n ∈ trees, n.Proper

theorem properForest_nil : ProperForest [] := ⟨.nil, by simp⟩

theorem Proper.forest {n : Node} (h : n.Proper) : ProperForest n.children := by
  cases h with
  | mk _ _ _ hd hp => exact ⟨hd, hp⟩

theorem Proper.leaf_iff {n : Node} (h : n.Proper) : n.children = [] ↔ n.label.isFinish := by
  cases h with
  | mk hl _ _ _ _ => exact hl

theorem Proper.not_filled {n : Node} (h : n.Proper) : n.label.isFilled = false := by
  cases h with
  | mk _ hf _ _ _ => exact hf

theorem Proper.after_slot {n : Node} (h : n.Proper) (hs : n.label.isSlot) :
    ∀ m ∈ n.children, m.label.isLiteral ∨ m.label.isFinish := by
  cases h with
  | mk _ _ ha _ _ => exact ha hs

theorem ProperForest.eq_of_label_eq {trees : List Node} (h : ProperForest trees) {n m : Node}
    (hn : n ∈ trees) (hm : m ∈ trees) (heq : n.label = m.label) : n = m :=
  List.inj_on_of_nodup_map h.distinct hn hm heq

theorem ProperForest.proper_of_mem_nodesOf {trees : List Node} (h : ProperForest trees) {n : Node}
    (hn : n ∈ nodesOf trees) : n.Proper := by
  obtain ⟨m, hm, hnm⟩ := mem_nodesOf.mp hn
  have hproper := h.proper m hm
  clear hn hm h
  induction hproper with
  | mk hl hf ha hd hp ih =>
    rcases hnm with rfl | hbelow
    · exact .mk hl hf ha hd hp
    · obtain ⟨k, hk, hnk⟩ := mem_nodesOf.mp hbelow
      exact ih k hk hnk

/-! ## Adding a row -/

theorem ProperForest.rank {trees : List Node} (h : ProperForest trees) :
    ProperForest (rank trees) := by
  refine ⟨?_, fun n hn => h.proper n (mem_rank.mp hn)⟩
  exact ((rankBy_perm outranks trees).map label).nodup_iff.mpr h.distinct

theorem ProperForest.alter {s : Segment} {f : List Node → List Node}
    (hf : ∀ children, children = [] ∨ (Node.mk s children).Proper →
      (Node.mk s (f children)).Proper)
    {trees : List Node} (h : ProperForest trees) : ProperForest (alter s f trees) := by
  constructor
  · rw [mem_label_alter]
    split
    · exact h.distinct
    · rename_i hnew
      exact h.distinct.append (List.nodup_singleton s) (by simpa using hnew)
  · have hproper := h.proper
    clear h
    induction trees with
    | nil => simpa [Node.alter] using hf [] (.inl rfl)
    | cons n more ih =>
      obtain ⟨other, below⟩ := n
      obtain ⟨hfirst, hmore⟩ := List.forall_mem_cons.mp hproper
      rw [Node.alter]
      split
      · rename_i heq
        subst heq
        exact List.forall_mem_cons.mpr ⟨hf below (.inr hfirst), hmore⟩
      · exact List.forall_mem_cons.mpr ⟨hfirst, ih hmore⟩

theorem graft_cons_ne_nil (s : Segment) (path : List Segment) (trees : List Node) :
    graft (s :: path) trees ≠ [] := by
  intro hnil
  have hmem : [s] ∈ pathsOf (graft (s :: path) trees) := mem_pathsOf_graft.mpr (.inr (by simp))
  simp [hnil, pathsOf] at hmem

/-- At its first level a row brings in no label but its own. -/
theorem label_of_mem_graft {s : Segment} {path : List Segment} {trees : List Node} {n : Node}
    (h : n ∈ graft (s :: path) trees) : n.label = s ∨ n.label ∈ trees.map label := by
  rw [graft, mem_rank] at h
  have hlabel : n.label ∈ (alter s (graft path) trees).map label := List.mem_map_of_mem h
  rw [mem_label_alter] at hlabel
  split at hlabel
  · exact .inr hlabel
  · simpa [or_comm] using hlabel

theorem Tail.head_isLiteral_or_isFinish {s : Segment} {row : List Segment}
    (h : Tail (s :: row)) (ha : OpensApart (s :: row)) : s.isLiteral ∨ s.isFinish := by
  have hs := ha s rfl
  cases h with
  | finish => exact .inr rfl
  | literal => exact .inl rfl
  | slot hslot => simp [hs] at hslot

theorem proper_mk_graft {s : Segment} {more : List Segment} (hfinish : s.isFinish = false)
    (hfilled : s.isFilled = false) (hslot : s.isSlot → OpensApart more) (hmore : Tail more)
    (ih : ∀ trees, ProperForest trees → ProperForest (graft more trees)) (children : List Node)
    (h : children = [] ∨ (mk s children).Proper) : (mk s (graft more children)).Proper := by
  have hforest : ProperForest children := by
    rcases h with rfl | h
    · exact properForest_nil
    · exact h.forest
  obtain ⟨hd, hp⟩ := ih children hforest
  obtain ⟨next, row, rfl⟩ := List.exists_cons_of_ne_nil hmore.ne_nil
  refine .mk (by simp [graft_cons_ne_nil, hfinish]) hfilled (fun hs n hn => ?_) hd hp
  rcases label_of_mem_graft hn with hnext | hold
  · rw [hnext]
    exact Tail.head_isLiteral_or_isFinish hmore (hslot hs)
  · rcases h with rfl | h
    · cases hold
    · obtain ⟨m, hm, heq⟩ := List.mem_map.mp hold
      rw [← heq]
      exact h.after_slot hs m hm

theorem ProperForest.graft_tail {path : List Segment} (hpath : Tail path)
    (hopen : ∀ s ∈ path, s.isFilled = false) {trees : List Node} (h : ProperForest trees) :
    ProperForest (graft path trees) := by
  induction hpath generalizing trees with
  | finish name =>
    refine (ProperForest.alter (fun children hc => ?_) h).rank
    rcases hc with rfl | hc
    · exact .mk (by simp [graft, isFinish]) rfl (by simp [graft]) (by simp [graft])
        (by simp [graft])
    · exact hc
  | literal _ hm ih =>
    obtain ⟨hfilled, hopen⟩ := List.forall_mem_cons.mp hopen
    exact (h.alter (proper_mk_graft rfl hfilled (by simp [isSlot, slotName?]) hm
      fun _ => ih hopen)).rank
  | slot hs ha hm ih =>
    obtain ⟨hfilled, hopen⟩ := List.forall_mem_cons.mp hopen
    exact (h.alter (proper_mk_graft (not_isFinish_of_isSlot hs) hfilled (fun _ => ha) hm
      fun _ => ih hopen)).rank

theorem ProperForest.graft_start {more : List Segment} (hmore : Tail more)
    (hopen : ∀ s ∈ more, s.isFilled = false) {trees : List Node} (h : ProperForest trees) :
    ProperForest (graft (.start :: more) trees) :=
  (h.alter (proper_mk_graft rfl rfl (by simp [isSlot, slotName?]) hmore
    fun _ => ProperForest.graft_tail hmore hopen)).rank

/-! ## Paths of proper trees -/

theorem nodup_pathsOf_of_distinct {trees : List Node} (hd : (trees.map label).Nodup)
    (hp : ∀ n ∈ trees, n.paths.Nodup) : (pathsOf trees).Nodup := by
  rw [pathsOf_eq_flatMap, List.nodup_flatMap]
  refine ⟨hp, (List.pairwise_map.mp hd).imp fun {n m} hne q hn hm => hne ?_⟩
  have head_eq : ∀ k : Node, q ∈ k.paths → q.head? = some k.label := by
    intro k hk
    obtain rfl | ⟨r, _, rfl⟩ := mem_paths.mp hk <;> rfl
  exact Option.some.inj ((head_eq n hn).symm.trans (head_eq m hm))

theorem Proper.nodup_paths {n : Node} (h : n.Proper) : n.paths.Nodup := by
  induction h with
  | @mk label children _ _ _ hd _ ih =>
    rw [paths, List.nodup_cons]
    refine ⟨?_, (nodup_pathsOf_of_distinct hd ih).map (List.cons_injective)⟩
    intro hmem
    obtain ⟨r, hr, heq⟩ := List.mem_map.mp hmem
    exact ne_nil_of_mem_pathsOf hr (List.cons.inj heq).2

theorem ProperForest.nodup_pathsOf {trees : List Node} (h : ProperForest trees) :
    (pathsOf trees).Nodup :=
  nodup_pathsOf_of_distinct h.distinct fun n hn => (h.proper n hn).nodup_paths

theorem Proper.mem_leafPaths {n : Node} (h : n.Proper) {q : List Segment} :
    q ∈ n.leafPaths ↔ q ∈ n.paths ∧ Ends q := by
  induction h generalizing q with
  | @mk label children hl _ _ _ _ ih =>
    have hforest : ∀ r, r ∈ leafPathsOf children ↔ r ∈ pathsOf children ∧ Ends r := by
      intro r
      rw [leafPathsOf_eq_flatMap, pathsOf_eq_flatMap, List.mem_flatMap, List.mem_flatMap]
      constructor
      · rintro ⟨m, hm, hr⟩
        exact ⟨⟨m, hm, ((ih m hm).mp hr).1⟩, ((ih m hm).mp hr).2⟩
      · rintro ⟨⟨m, hm, hr⟩, he⟩
        exact ⟨m, hm, (ih m hm).mpr ⟨hr, he⟩⟩
    rw [leafPaths, mem_paths, label_mk, children_mk]
    split
    · rename_i hempty
      obtain rfl := List.isEmpty_iff.mp hempty
      have hfinish := hl.mp rfl
      simp only [List.mem_singleton, pathsOf, List.not_mem_nil, false_and, exists_false, or_false]
      exact ⟨fun hq => ⟨hq, hq ▸ ends_singleton.mpr hfinish⟩, And.left⟩
    · rename_i hempty
      have hne : ¬ label.isFinish := fun hf => hempty (List.isEmpty_iff.mpr (hl.mpr hf))
      rw [List.mem_map]
      constructor
      · rintro ⟨r, hr, rfl⟩
        obtain ⟨hr, he⟩ := (hforest r).mp hr
        exact ⟨.inr ⟨r, hr, rfl⟩, (ends_cons (ne_nil_of_mem_pathsOf hr)).mpr he⟩
      · rintro ⟨rfl | ⟨r, hr, rfl⟩, he⟩
        · exact absurd (ends_singleton.mp he) hne
        · exact ⟨r, (hforest r).mpr ⟨hr, (ends_cons (ne_nil_of_mem_pathsOf hr)).mp he⟩, rfl⟩

theorem ProperForest.mem_leafPathsOf {trees : List Node} (h : ProperForest trees)
    {q : List Segment} : q ∈ leafPathsOf trees ↔ q ∈ pathsOf trees ∧ Ends q := by
  rw [leafPathsOf_eq_flatMap, pathsOf_eq_flatMap, List.mem_flatMap, List.mem_flatMap]
  constructor
  · rintro ⟨n, hn, hq⟩
    obtain ⟨hq, he⟩ := (h.proper n hn).mem_leafPaths.mp hq
    exact ⟨⟨n, hn, hq⟩, he⟩
  · rintro ⟨⟨n, hn, hq⟩, he⟩
    exact ⟨n, hn, (h.proper n hn).mem_leafPaths.mpr ⟨hq, he⟩⟩

/-- Following labels down from the roots finds each path there is. -/
theorem ProperForest.holds_iff {trees : List Node} (h : ProperForest trees)
    {path : List Segment} : holds path trees ↔ path = [] ∨ path ∈ pathsOf trees := by
  induction path generalizing trees with
  | nil => simp [holds]
  | cons s path ih =>
    rw [holds]
    simp only [List.cons_ne_nil, false_or]
    split
    · rename_i n hfind
      have hn := List.mem_of_find?_eq_some hfind
      have hlabel : n.label = s := by simpa using List.find?_some hfind
      rw [ih (h.proper n hn).forest, @mem_pathsOf (s :: path) trees]
      constructor
      · rintro (rfl | hpath)
        · exact ⟨n, hn, .inl (by rw [hlabel])⟩
        · exact ⟨n, hn, .inr ⟨path, hpath, by rw [hlabel]⟩⟩
      · rintro ⟨m, hm, heq | ⟨r, hr, heq⟩⟩
        · exact .inl (List.cons.inj heq).2
        · obtain ⟨hs, rfl⟩ := List.cons.inj heq
          obtain rfl := h.eq_of_label_eq hn hm (hlabel.trans hs)
          exact .inr hr
    · rename_i hfind
      simp only [Bool.false_eq_true, false_iff]
      intro hmem
      obtain ⟨m, hm, hq⟩ := mem_pathsOf.mp hmem
      have hs : m.label = s := by
        rcases hq with heq | ⟨r, _, heq⟩ <;> exact (List.cons.inj heq).1.symm
      simpa [hs] using List.find?_eq_none.mp hfind m hm

end Node
end RouteTemplates
