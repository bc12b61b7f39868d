import Mathlib.Data.List.Pairwise
import RouteTemplates.Proofs.Text.FirstCut
import RouteTemplates.Proofs.Trie.Ranked
import RouteTemplates.Trie.Resolution

/-!
# Choices that do not depend on the order of siblings

Ranked tries with the same paths differ at most in the order of siblings that tie.
A descent takes the first sibling that it can, so this order matters only where two
siblings that tie can both be taken.  Siblings of different kinds never tie, and of
two different plain literals with the same length one at most is in front of an
input.  What is left are ties between slots, between ends and between separators, and
below a slot, where a literal may stand anywhere in the input, between plain
literals.  A trie without these is decisive.
-/

namespace RouteTemplates

namespace Segment

/-! ## Kinds of segments -/

def isPlain : Segment → Bool
  | .literal .plain _ => true
  | _ => false

def isSeparator : Segment → Bool
  | .literal .separator _ => true
  | _ => false

theorem not_isSlot_of_isLiteral {s : Segment} (h : s.isLiteral) : s.isSlot = false := by
  cases s <;> first | rfl | cases h

/-- A segment behind a start. -/
def Inner (s : Segment) : Prop := s ≠ .start ∧ ∀ text ∈ s.literal?, text ≠ []

theorem Tail.inner {row : List Segment} (h : Tail row) : ∀ s ∈ row, Inner s := by
  induction h with
  | finish name => simp [Inner, literal?]
  | literal ht _ ih =>
    refine List.forall_mem_cons.mpr ⟨⟨nofun, ?_⟩, ih⟩
    rintro text ⟨⟩
    exact ht
  | @slot s _ hs _ _ ih =>
    refine List.forall_mem_cons.mpr ⟨?_, ih⟩
    cases s with
    | slot _ | filled _ _ => simp [Inner, literal?]
    | start | finish _ | literal _ _ => cases hs

theorem Inner.isSeparator_of_weight_eq_zero {s : Segment} (h : Inner s) (hl : s.isLiteral)
    (hw : s.weight = 0) : isSeparator s := by
  cases s with
  | literal role text =>
    cases role with
    | separator => rfl
    | plain => exact absurd (Text.byteSize_eq_zero.mp hw) (h.2 text rfl)
  | start | finish _ | slot _ | filled _ _ => cases hl

theorem Inner.isSlot {s : Segment} (h : Inner s) (hl : s.isLiteral = false)
    (hf : s.isFinish = false) : s.isSlot := by
  cases s with
  | start => exact absurd rfl h.1
  | finish _ => cases hf
  | literal _ _ => cases hl
  | slot _ | filled _ _ => rfl

theorem isLiteral_of_isPlain {s : Segment} (h : isPlain s) : s.isLiteral := by
  cases s <;> first | rfl | cases h

theorem isLiteral_of_isSeparator {s : Segment} (h : isSeparator s) : s.isLiteral := by
  cases s <;> first | rfl | cases h

theorem isPlain_or_isSeparator {s : Segment} (h : s.isLiteral) : isPlain s ∨ isSeparator s := by
  cases s with
  | literal role text => cases role <;> simp [isPlain, isSeparator]
  | start | finish _ | slot _ | filled _ _ => cases h

theorem exists_plain_of_isPlain {s : Segment} (h : isPlain s) :
    ∃ text, s = .literal .plain text := by
  cases s with
  | literal role text =>
    cases role with
    | plain => exact ⟨text, rfl⟩
    | separator => cases h
  | start | finish _ | slot _ | filled _ _ => cases h

theorem exists_separator_of_isSeparator {s : Segment} (h : isSeparator s) :
    ∃ mark, s = .literal .separator mark := by
  cases s with
  | literal role text =>
    cases role with
    | plain => cases h
    | separator => exact ⟨text, rfl⟩
  | start | finish _ | slot _ | filled _ _ => cases h

theorem weight_of_not_isPlain {s : Segment} (h : isPlain s = false) : s.weight = 0 := by
  cases s with
  | literal role text =>
    cases role with
    | plain => cases h
    | separator => rfl
  | start | finish _ | slot _ | filled _ _ => rfl

theorem isPlain_eq_false_of_isSeparator {s : Segment} (h : isSeparator s) : isPlain s = false := by
  cases s with
  | literal role text =>
    cases role with
    | plain => cases h
    | separator => rfl
  | start | finish _ | slot _ | filled _ _ => rfl

theorem Inner.weight_pos {s : Segment} (h : Inner s) (hs : isPlain s) : 0 < s.weight := by
  refine Nat.pos_of_ne_zero fun hzero => ?_
  have hseparator := h.isSeparator_of_weight_eq_zero (isLiteral_of_isPlain hs) hzero
  rw [isPlain_eq_false_of_isSeparator hseparator] at hs
  cases hs

theorem exists_plain_of_weight_ne_zero {s : Segment} (h : s.weight ≠ 0) :
    ∃ text, s = .literal .plain text := by
  refine exists_plain_of_isPlain ?_
  by_contra hplain
  exact h (weight_of_not_isPlain (Bool.eq_false_iff.mpr hplain))

end Segment

/-! ## The first that has something to give -/

section

variable {α β : Type} {outranks : α → α → Bool} {l l' : List α} {a b : α}

theorem InOrder.eq_or_not_outranks (h : InOrder outranks (l ++ a :: l')) (hb : b ∈ l ++ a :: l')
    (hnot : b ∉ l) : b = a ∨ outranks b a = false := by
  refine ((List.mem_append.mp hb).resolve_left hnot |> List.mem_cons.mp).imp_right fun hmore => ?_
  exact (inOrder_cons.mp (List.pairwise_append.mp h).2.1).1 b hmore

theorem InOrder.eq_or_not_outranks_last (h : InOrder outranks l) (hlast : l.getLast? = some a)
    (hb : b ∈ l) : b = a ∨ outranks a b = false := by
  obtain ⟨before, rfl⟩ := List.getLast?_eq_some_iff.mp hlast
  rcases List.mem_append.mp hb with hb | hb
  · exact .inr ((List.pairwise_append.mp h).2.2 b hb a (List.mem_singleton_self a))
  · exact .inl (List.mem_singleton.mp hb)

/-- Two rows in order with the same items give the same, if items that tie and have
something to give have the same to give. -/
theorem InOrder.findSome?_eq_of_perm {f : α → Option β} (hperm : l.Perm l')
    (h : InOrder outranks l) (h' : InOrder outranks l')
    (hdecide : ∀ a ∈ l, ∀ b ∈ l, (f a).isSome → (f b).isSome → outranks a b = false →
      outranks b a = false → f a = f b) : l.findSome? f = l'.findSome? f := by
  cases hfind : l.findSome? f with
  | none =>
    rw [List.findSome?_eq_none_iff] at hfind
    refine (List.findSome?_eq_none_iff.mpr fun a ha => ?_).symm
    exact hfind a (hperm.mem_iff.mpr ha)
  | some x =>
    obtain ⟨before, a, after, rfl, ha, hbefore⟩ := List.findSome?_eq_some_iff.mp hfind
    cases hfind' : l'.findSome? f with
    | none =>
      have hnone := List.findSome?_eq_none_iff.mp hfind' a (hperm.mem_iff.mp (by simp))
      rw [ha] at hnone
      cases hnone
    | some y =>
      obtain ⟨before', b, after', rfl, hb, hbefore'⟩ := List.findSome?_eq_some_iff.mp hfind'
      have hbl : b ∈ before ++ a :: after := hperm.mem_iff.mpr (by simp)
      have hal : a ∈ before' ++ b :: after' := hperm.mem_iff.mp (by simp)
      have hnotB : b ∉ before := fun hmem => by simp [hbefore b hmem] at hb
      have hnotA : a ∉ before' := fun hmem => by simp [hbefore' a hmem] at ha
      rw [← ha, ← hb]
      rcases h.eq_or_not_outranks hbl hnotB with rfl | hba
      · rfl
      rcases h'.eq_or_not_outranks hal hnotA with rfl | hab
      · rfl
      exact hdecide a (by simp) b hbl (by simp [ha]) (by simp [hb]) hab hba

end

namespace Node

open Segment

/-! ## Descents as choices -/

def isLast (trees : List Node) (s : Segment) : Bool := trees.getLast?.map label = some s

theorem isLast_cons_self {n : Node} {more : List Node} (h : n.label ∉ more.map label) :
    isLast (n :: more) n.label = more.isEmpty := by
  cases more with
  | nil => simp [isLast]
  | cons m more =>
    cases hlast : (m :: more).getLast? with
    | none => simp at hlast
    | some last =>
      have hmem := List.mem_map_of_mem (f := label) (List.mem_of_getLast? hlast)
      have hne : last.label ≠ n.label := fun heq => h (heq ▸ hmem)
      simp [isLast, List.getLast?_cons_cons, hlast, hne]

theorem isLast_cons_cons (n m : Node) (more : List Node) :
    isLast (n :: m :: more) = isLast (m :: more) := by
  funext s
  rw [isLast, isLast, List.getLast?_cons_cons]

theorem descend_eq_findSome? {trees : List Node} (hd : (trees.map label).Nodup) (input : Text) :
    descend trees input =
      (trees.findSome? fun n => n.take? (isLast trees n.label) input).getD .stuck := by
  induction trees with
  | nil => rw [descend, List.findSome?_nil, Option.getD_none]
  | cons n more ih =>
    rw [List.map_cons, List.nodup_cons] at hd
    obtain ⟨hn, hmore⟩ := hd
    rw [descend, ih hmore, List.findSome?_cons, isLast_cons_self hn]
    cases n.take? more.isEmpty input with
    | some d => rfl
    | none =>
      cases more with
      | nil => rfl
      | cons m more => rw [isLast_cons_cons]

theorem boundedBy?_eq_findSome? (trees : List Node) (input : Text) :
    boundedBy? trees input = trees.findSome? fun n => n.bound? input := by
  induction trees with
  | nil => rw [boundedBy?, List.findSome?_nil]
  | cons n more ih =>
    rw [boundedBy?, List.findSome?_cons, ih]
    cases n.bound? input <;> rfl

theorem descend_start (children : List Node) (input : Text) :
    descend [mk .start children] input = (descend children input).cons .start := by
  rw [descend, take?]

/-! ## Tries with the same paths -/

theorem label_mem_of_cons_mem_pathsOf {s : Segment} {r : List Segment} {trees : List Node}
    (h : s :: r ∈ pathsOf trees) : s ∈ trees.map label := by
  obtain ⟨n, hn, heq | ⟨_, _, heq⟩⟩ := mem_pathsOf.mp h
  · exact List.mem_map.mpr ⟨n, hn, (List.cons.inj heq).1.symm⟩
  · exact List.mem_map.mpr ⟨n, hn, (List.cons.inj heq).1.symm⟩

theorem singleton_mem_pathsOf {s : Segment} {trees : List Node} :
    [s] ∈ pathsOf trees ↔ s ∈ trees.map label := by
  refine ⟨label_mem_of_cons_mem_pathsOf, fun h => ?_⟩
  obtain ⟨n, hn, rfl⟩ := List.mem_map.mp h
  exact mem_pathsOf.mpr ⟨n, hn, .inl rfl⟩

theorem ProperForest.cons_mem_pathsOf {trees : List Node} (h : ProperForest trees) {n : Node}
    (hn : n ∈ trees) {r : List Segment} :
    n.label :: r ∈ pathsOf trees ↔ r = [] ∨ r ∈ pathsOf n.children := by
  rw [mem_pathsOf]
  constructor
  · rintro ⟨m, hm, heq | ⟨r', hr, heq⟩⟩
    · exact .inl (List.cons.inj heq).2
    · obtain ⟨hlabel, rfl⟩ := List.cons.inj heq
      rw [h.eq_of_label_eq hn hm hlabel]
      exact .inr hr
  · rintro (rfl | hr)
    · exact ⟨n, hn, .inl rfl⟩
    · exact ⟨n, hn, .inr ⟨r, hr, rfl⟩⟩

/-- Ranked trees with the same paths. -/
structure Alike (trees trees' : List Node) : Prop where
  paths : ∀ q, q ∈ pathsOf trees ↔ q ∈ pathsOf trees'
  proper : ProperForest trees
  proper' : ProperForest trees'
  ranked : RankedForest trees
  ranked' : RankedForest trees'

section

variable {trees trees' : List Node} {n m : Node}

theorem Alike.symm (h : Alike trees trees') : Alike trees' trees :=
  ⟨fun q => (h.paths q).symm, h.proper', h.proper, h.ranked', h.ranked⟩

theorem Alike.perm_labels (h : Alike trees trees') :
    (trees.map label).Perm (trees'.map label) := by
  refine (List.perm_ext_iff_of_nodup h.proper.distinct h.proper'.distinct).mpr fun s => ?_
  rw [← singleton_mem_pathsOf, ← singleton_mem_pathsOf, h.paths]

theorem Alike.below (h : Alike trees trees') (hn : n ∈ trees) (hm : m ∈ trees')
    (hlabel : n.label = m.label) : Alike n.children m.children where
  paths q := by
    have hpath := h.paths (n.label :: q)
    rw [h.proper.cons_mem_pathsOf hn, hlabel, h.proper'.cons_mem_pathsOf hm] at hpath
    by_cases hq : q = []
    · rw [hq]
      exact iff_of_false (fun hmem => ne_nil_of_mem_pathsOf hmem rfl)
        fun hmem => ne_nil_of_mem_pathsOf hmem rfl
    · simpa [hq] using hpath
  proper := (h.proper.proper n hn).forest
  proper' := (h.proper'.proper m hm).forest
  ranked := (h.ranked.ranked n hn).forest
  ranked' := (h.ranked'.ranked m hm).forest

theorem Alike.exists_label_eq (h : Alike trees trees') (hn : n ∈ trees) :
    ∃ m ∈ trees', n.label = m.label := by
  have hlabel := h.perm_labels.mem_iff.mp (List.mem_map_of_mem hn)
  obtain ⟨m, hm, heq⟩ := List.mem_map.mp hlabel
  exact ⟨m, hm, heq.symm⟩

theorem Alike.standing_eq (h : Alike trees trees') (hn : n ∈ trees) (hm : m ∈ trees')
    (hlabel : n.label = m.label) : n.standing = m.standing := by
  have hlength := (h.below hn hm hlabel).perm_labels.length_eq
  rw [List.length_map, List.length_map] at hlength
  rw [standing, standing, hlabel, hlength]

theorem endsHere_iff {trees : List Node} :
    endsHere trees ↔ ∃ name, trees.map label = [.finish name] := by
  match trees with
  | [] | _ :: _ :: _ => simp [endsHere]
  | [.mk label _] => cases label <;> simp [endsHere]

theorem Alike.endsHere_eq (h : Alike trees trees') : endsHere trees = endsHere trees' := by
  rw [Bool.eq_iff_iff, endsHere_iff, endsHere_iff]
  refine exists_congr fun name => ⟨fun heq => ?_, fun heq => ?_⟩
  · exact List.perm_singleton.mp (heq ▸ h.perm_labels.symm)
  · exact List.perm_singleton.mp (heq ▸ h.perm_labels)

/-- All that counts of a node among its siblings, if `f` is what it gives. -/
def seen {β : Type} (f : Node → Option β) (n : Node) : Standing × Option β := (n.standing, f n)

def outranksSeen {β : Type} (a b : Standing × Option β) : Bool := a.1.outranks b.1

theorem Alike.perm_seen {β : Type} (h : Alike trees trees') {f g : Node → Option β}
    (hfg : ∀ n ∈ trees, ∀ m ∈ trees', n.label = m.label → f n = g m) :
    (trees.map (seen f)).Perm (trees'.map (seen g)) := by
  have hseen : ∀ n ∈ trees, ∀ m ∈ trees', n.label = m.label → seen f n = seen g m := by
    intro n hn m hm hlabel
    rw [seen, seen, h.standing_eq hn hm hlabel, hfg n hn m hm hlabel]
  have hnodup : ∀ {trees : List Node} (f : Node → Option β), ProperForest trees →
      (trees.map (seen f)).Nodup := by
    intro trees f hproper
    refine .of_map (fun s => s.1.label) ?_
    rw [List.map_map]
    exact hproper.distinct
  refine (List.perm_ext_iff_of_nodup (hnodup f h.proper) (hnodup g h.proper')).mpr fun s => ?_
  rw [List.mem_map, List.mem_map]
  constructor
  · rintro ⟨n, hn, rfl⟩
    obtain ⟨m, hm, hlabel⟩ := h.exists_label_eq hn
    exact ⟨m, hm, (hseen n hn m hm hlabel).symm⟩
  · rintro ⟨m, hm, rfl⟩
    obtain ⟨n, hn, hlabel⟩ := h.symm.exists_label_eq hm
    exact ⟨n, hn, hseen n hn m hm hlabel.symm⟩

/-- The first of the siblings that has something to give is the same one, unless two
that tie both have. -/
theorem Alike.findSome?_eq {β : Type} (h : Alike trees trees') {f g : Node → Option β}
    (hfg : ∀ n ∈ trees, ∀ m ∈ trees', n.label = m.label → f n = g m)
    (hdecide : ∀ n ∈ trees, ∀ m ∈ trees, (f n).isSome → (f m).isSome →
      n.standing.Ties m.standing → n = m) :
    trees.findSome? f = trees'.findSome? g := by
  have hinOrder : InOrder outranksSeen (trees.map (seen f)) :=
    List.pairwise_map.mpr h.ranked.inOrder
  have hinOrder' : InOrder outranksSeen (trees'.map (seen g)) :=
    List.pairwise_map.mpr h.ranked'.inOrder
  have hfirst : (trees.map (seen f)).findSome? Prod.snd =
      (trees'.map (seen g)).findSome? Prod.snd := by
    refine hinOrder.findSome?_eq_of_perm (h.perm_seen hfg) hinOrder' ?_
    intro a ha b hb hfa hfb hab hba
    obtain ⟨n, hn, rfl⟩ := List.mem_map.mp ha
    obtain ⟨m, hm, rfl⟩ := List.mem_map.mp hb
    rw [hdecide n hn m hm hfa hfb ⟨hab, hba⟩]
  rw [List.findSome?_map, List.findSome?_map] at hfirst
  exact hfirst

end

/-! ## Levels that leave nothing open -/

/-- No two of the siblings with labels of this kind tie. -/
def NoTies (kind : Segment → Bool) (siblings : List Node) : Prop :=
  siblings.Pairwise fun n m => kind n.label → kind m.label → ¬ n.standing.Ties m.standing

instance (kind : Segment → Bool) (siblings : List Node) : Decidable (NoTies kind siblings) :=
  inferInstanceAs (Decidable (siblings.Pairwise fun n m =>
    kind n.label → kind m.label → ¬ n.standing.Ties m.standing))

structure Decided (siblings : List Node) : Prop where
  slots : NoTies isSlot siblings
  finishes : NoTies isFinish siblings
  separators : NoTies isSeparator siblings

instance (siblings : List Node) : Decidable (Decided siblings) :=
  decidable_of_iff (NoTies isSlot siblings ∧ NoTies isFinish siblings ∧
      NoTies isSeparator siblings)
    ⟨fun ⟨hs, hf, hp⟩ => ⟨hs, hf, hp⟩, fun ⟨hs, hf, hp⟩ => ⟨hs, hf, hp⟩⟩

/-- At each level slots, ends and separators are told apart, and below a slot plain
literals are as well. -/
structure Decisive (trees : List Node) : Prop where
  top : Decided trees
  below : ∀ n ∈ nodesOf trees, Decided n.children
  bounds : ∀ n ∈ nodesOf trees, n.label.isSlot → NoTies isPlain n.children

instance (trees : List Node) : Decidable (Decisive trees) :=
  decidable_of_iff (Decided trees ∧ (∀ n ∈ nodesOf trees, Decided n.children) ∧
      ∀ n ∈ nodesOf trees, n.label.isSlot → NoTies isPlain n.children)
    ⟨fun ⟨ht, hb, hs⟩ => ⟨ht, hb, hs⟩, fun ⟨ht, hb, hs⟩ => ⟨ht, hb, hs⟩⟩

theorem NoTies.eq_of_ties {kind : Segment → Bool} {siblings : List Node} (h : NoTies kind siblings)
    {n m : Node} (hn : n ∈ siblings) (hm : m ∈ siblings) (hkn : kind n.label)
    (hkm : kind m.label) (ht : n.standing.Ties m.standing) : n = m := by
  by_contra hne
  have hsymm : Std.Symm fun n m : Node =>
      kind n.label → kind m.label → ¬ n.standing.Ties m.standing :=
    ⟨fun _ _ hnm hm hn ht => hnm hn hm ⟨ht.2, ht.1⟩⟩
  exact List.Pairwise.forall h hn hm hne hkn hkm ht

theorem Decisive.children {trees : List Node} (h : Decisive trees) {n : Node} (hn : n ∈ trees) :
    Decisive n.children := by
  have hsub : ∀ m ∈ nodesOf n.children, m ∈ nodesOf trees := fun m hm =>
    mem_nodesOf.mpr ⟨n, hn, .inr hm⟩
  exact ⟨h.below n (mem_nodesOf.mpr ⟨n, hn, .inl rfl⟩), fun m hm => h.below m (hsub m hm),
    fun m hm => h.bounds m (hsub m hm)⟩

theorem Proper.waysOn_eq_zero_iff {n : Node} (h : n.Proper) :
    n.standing.waysOn = 0 ↔ n.label.isFinish := by
  rw [standing, List.length_eq_zero_iff, h.leaf_iff]

/-- What does not outrank an end is one. -/
theorem isFinish_of_not_outranks {a e : Node} (ha : a.Proper) (he : e.Proper)
    (hfinish : e.label.isFinish) (h : a.outranks e = false) : a.label.isFinish := by
  have hways := he.waysOn_eq_zero_iff.mpr hfinish
  obtain ⟨s, children⟩ := e
  cases s with
  | finish name =>
    obtain ⟨hliteral, hless⟩ := Standing.not_outranks_iff.mp h
    have hl : a.standing.label.isLiteral = false := Bool.eq_false_iff.mpr fun hl =>
      Bool.false_ne_true (hliteral hl)
    obtain ⟨hweight, hfewer⟩ := hless hl
    have hzero := hfewer (Nat.le_zero.mp hweight)
    exact ha.waysOn_eq_zero_iff.mp (Nat.le_zero.mp (hways ▸ hzero))
  | start | literal _ _ | slot _ | filled _ _ => cases hfinish

/-- Nodes that tie are of one kind: a slot has ways on and an end has none, and the
weight tells plain literals from separators. -/
theorem kind_eq_of_ties {n m : Node} (hn : n.Proper) (hm : m.Proper) (hinnerN : Inner n.label)
    (hinnerM : Inner m.label) (ht : n.standing.Ties m.standing) :
    (n.label.isSlot ∧ m.label.isSlot) ∨ (n.label.isFinish ∧ m.label.isFinish) ∨
      (isSeparator n.label ∧ isSeparator m.label) ∨
      ∃ s t, n.label = .literal .plain s ∧ m.label = .literal .plain t ∧
        Text.byteSize s = Text.byteSize t := by
  obtain ⟨hliteral, hweight, hways⟩ := Standing.ties_iff.mp ht
  change n.label.isLiteral = m.label.isLiteral at hliteral
  change n.label.weight = m.label.weight at hweight
  have hleafN := hn.waysOn_eq_zero_iff
  have hleafM := hm.waysOn_eq_zero_iff
  rw [← hways] at hleafM
  cases hl : n.label.isLiteral with
  | true =>
    rw [hl] at hliteral
    by_cases hzero : n.label.weight = 0
    · have hzeroM : m.label.weight = 0 := hweight.symm.trans hzero
      exact .inr (.inr (.inl ⟨hinnerN.isSeparator_of_weight_eq_zero hl hzero,
        hinnerM.isSeparator_of_weight_eq_zero hliteral.symm hzeroM⟩))
    · obtain ⟨s, hs⟩ := exists_plain_of_weight_ne_zero hzero
      obtain ⟨t, ht⟩ := exists_plain_of_weight_ne_zero (hweight ▸ hzero)
      rw [hs, ht] at hweight
      exact .inr (.inr (.inr ⟨s, t, hs, ht, hweight⟩))
  | false =>
    rw [hl] at hliteral
    by_cases hzero : n.standing.waysOn = 0
    · exact .inr (.inl ⟨hleafN.mp hzero, hleafM.mp hzero⟩)
    · exact .inl ⟨hinnerN.isSlot hl (Bool.eq_false_iff.mpr (mt hleafN.mpr hzero)),
        hinnerM.isSlot hliteral.symm (Bool.eq_false_iff.mpr (mt hleafM.mpr hzero))⟩

/-- Siblings that tie are the same or are plain literals of the same length. -/
theorem Decided.eq_or_plain_of_ties {siblings : List Node} (h : Decided siblings)
    (hproper : ProperForest siblings) (hinner : ∀ n ∈ siblings, Inner n.label) {n m : Node}
    (hn : n ∈ siblings) (hm : m ∈ siblings) (ht : n.standing.Ties m.standing) :
    n = m ∨ ∃ s t, n.label = .literal .plain s ∧ m.label = .literal .plain t ∧
      Text.byteSize s = Text.byteSize t := by
  rcases kind_eq_of_ties (hproper.proper n hn) (hproper.proper m hm) (hinner n hn) (hinner m hm) ht
    with ⟨hkn, hkm⟩ | ⟨hkn, hkm⟩ | ⟨hkn, hkm⟩ | hplain
  · exact .inl (h.slots.eq_of_ties hn hm hkn hkm ht)
  · exact .inl (h.finishes.eq_of_ties hn hm hkn hkm ht)
  · exact .inl (h.separators.eq_of_ties hn hm hkn hkm ht)
  · exact .inr hplain

/-! ## Taking a node -/

theorem take?_congr {s : Segment} {children children' : List Node} {last last' : Bool}
    {input : Text} (hdescend : ∀ rest, descend children rest = descend children' rest)
    (hends : endsHere children = endsHere children')
    (hslot : s.isSlot → last = last' ∧ boundedBy? children input = boundedBy? children' input) :
    (mk s children).take? last input = (mk s children').take? last' input := by
  cases s with
  | start => rw [take?, take?, hdescend]
  | finish _ => rfl
  | literal _ _ => simp only [take?, hdescend, hends]
  | slot _ =>
    obtain ⟨rfl, hbounded⟩ := hslot rfl
    rw [take?, take?, hbounded]
  | filled _ _ => rfl

theorem bound?_congr {s : Segment} {children children' : List Node} (input : Text)
    (hdescend : ∀ rest, descend children rest = descend children' rest) :
    (mk s children).bound? input = (mk s children').bound? input := by
  cases s <;> simp only [bound?, hdescend]

theorem prefix_of_take? {n : Node} {last : Bool} {input : Text} {role : LiteralRole} {text : Text}
    (hlabel : n.label = .literal role text) (h : (n.take? last input).isSome) :
    ∃ rest, input = text ++ rest := by
  obtain ⟨s, children⟩ := n
  obtain rfl : s = .literal role text := hlabel
  rw [take?] at h
  cases hfront : text.isPrefixOf? input with
  | none => simp [hfront] at h
  | some rest => exact ⟨rest, Text.isPrefixOf?_eq_some_iff.mp hfront⟩

theorem eq_of_byteSize_eq {s t rest rest' : Text} (h : s ++ rest = t ++ rest')
    (hsize : Text.byteSize s = Text.byteSize t) : s = t := by
  have hs := Text.takeBytes?_append s rest
  rw [h, hsize, Text.takeBytes?_append] at hs
  exact (Prod.mk.inj (Option.some.inj hs)).1.symm

/-- Of siblings that tie one at most can be taken. -/
theorem Decided.eq_of_take? {siblings : List Node} (h : Decided siblings)
    (hproper : ProperForest siblings) (hinner : ∀ n ∈ siblings, Inner n.label) {n m : Node}
    (hn : n ∈ siblings) (hm : m ∈ siblings) (ht : n.standing.Ties m.standing)
    {last last' : Bool} {input : Text} (htakeN : (n.take? last input).isSome)
    (htakeM : (m.take? last' input).isSome) : n = m := by
  rcases h.eq_or_plain_of_ties hproper hinner hn hm ht with heq | ⟨s, t, hs, ht, hsize⟩
  · exact heq
  · obtain ⟨rest, hinput⟩ := prefix_of_take? hs htakeN
    obtain ⟨rest', hinput'⟩ := prefix_of_take? ht htakeM
    have htext := eq_of_byteSize_eq (hinput.symm.trans hinput') hsize
    exact hproper.eq_of_label_eq hn hm (by rw [hs, ht, htext])

/-- Below a slot, of siblings that tie one at most can bound a value. -/
theorem Decided.eq_of_bound? {siblings : List Node} (h : Decided siblings)
    (hplain : NoTies isPlain siblings) (hproper : ProperForest siblings)
    (hinner : ∀ n ∈ siblings, Inner n.label) {n m : Node} (hn : n ∈ siblings)
    (hm : m ∈ siblings) (ht : n.standing.Ties m.standing) : n = m := by
  rcases h.eq_or_plain_of_ties hproper hinner hn hm ht with heq | ⟨s, t, hs, ht', hsize⟩
  · exact heq
  · exact hplain.eq_of_ties hn hm (by rw [hs]; rfl) (by rw [ht']; rfl) ht

section

variable {trees trees' : List Node}

theorem Alike.label_last (h : Alike trees trees') (hdecided : Decided trees)
    (hinner : ∀ n ∈ trees, Inner n.label) {a b : Node} (ha : trees.getLast? = some a)
    (hb : trees'.getLast? = some b) :
    a.label = b.label ∨ (a.label.isSlot = false ∧ b.label.isSlot = false) := by
  have haIn := List.mem_of_getLast? ha
  have hbIn := List.mem_of_getLast? hb
  obtain ⟨a', ha', hlabelA⟩ := h.exists_label_eq haIn
  obtain ⟨b', hb', hlabelB⟩ := h.symm.exists_label_eq hbIn
  rcases h.ranked.inOrder.eq_or_not_outranks_last ha hb' with rfl | hab
  · exact .inl hlabelB.symm
  rcases h.ranked'.inOrder.eq_or_not_outranks_last hb ha' with rfl | hba
  · exact .inl hlabelA
  have hback : b'.standing.outranks a.standing = false := by
    rw [h.standing_eq haIn ha' hlabelA, ← h.symm.standing_eq hbIn hb' hlabelB]
    exact hba
  rcases hdecided.eq_or_plain_of_ties h.proper hinner haIn hb' ⟨hab, hback⟩ with
    rfl | ⟨s, t, hs, ht, _⟩
  · exact .inl hlabelB.symm
  · rw [hlabelB, hs, ht]
    exact .inr ⟨rfl, rfl⟩

theorem Alike.eq_nil_iff (h : Alike trees trees') : trees = [] ↔ trees' = [] := by
  have hlength := h.perm_labels.length_eq
  rw [List.length_map, List.length_map] at hlength
  rw [← List.length_eq_zero_iff, hlength, List.length_eq_zero_iff]

/-- Whether a slot is the last of its siblings does not depend on their order. -/
theorem Alike.isLast_eq (h : Alike trees trees') (hdecided : Decided trees)
    (hinner : ∀ n ∈ trees, Inner n.label) {s : Segment} (hs : s.isSlot) :
    isLast trees s = isLast trees' s := by
  rw [isLast, isLast]
  cases ha : trees.getLast? with
  | none => rw [h.eq_nil_iff.mp (List.getLast?_eq_none_iff.mp ha), List.getLast?_nil]
  | some a =>
    cases hb : trees'.getLast? with
    | none =>
      rw [h.eq_nil_iff.mpr (List.getLast?_eq_none_iff.mp hb)] at ha
      cases ha
    | some b =>
      rcases h.label_last hdecided hinner ha hb with heq | ⟨hslotA, hslotB⟩
      · rw [Option.map_some, Option.map_some, heq]
      · have hne : ∀ n : Node, n.label.isSlot = false → n.label ≠ s := by
          rintro n hn rfl
          rw [hs] at hn
          cases hn
        simp [hne a hslotA, hne b hslotB]

end

/-! ## Going down -/

/-- Descents from the nodes of two levels go on alike: they find the same below nodes
with the same label, and below slots the same bounds. -/
def GoOnAlike (trees trees' : List Node) : Prop :=
  ∀ n ∈ trees, ∀ m ∈ trees', n.label = m.label →
    (∀ rest, descend n.children rest = descend m.children rest) ∧
      (n.label.isSlot → ∀ input, boundedBy? n.children input = boundedBy? m.children input)

section

variable {trees trees' : List Node}

theorem Alike.descend_eq (h : Alike trees trees') (hdecided : Decided trees)
    (hinner : ∀ n ∈ trees, Inner n.label) (hbelow : GoOnAlike trees trees') (input : Text) :
    descend trees input = descend trees' input := by
  rw [descend_eq_findSome? h.proper.distinct, descend_eq_findSome? h.proper'.distinct]
  refine congrArg (Option.getD · _) (h.findSome?_eq ?_ ?_)
  · rintro ⟨s, children⟩ hn ⟨t, children'⟩ hm (rfl : s = t)
    obtain ⟨hdescend, hbounded⟩ := hbelow _ hn _ hm rfl
    exact take?_congr hdescend (h.below hn hm rfl).endsHere_eq fun hs =>
      ⟨h.isLast_eq hdecided hinner hs, hbounded hs input⟩
  · intro n hn m hm htakeN htakeM ht
    exact hdecided.eq_of_take? h.proper hinner hn hm ht htakeN htakeM

theorem Alike.boundedBy?_eq (h : Alike trees trees') (hdecided : Decided trees)
    (hplain : NoTies isPlain trees) (hinner : ∀ n ∈ trees, Inner n.label)
    (hbelow : GoOnAlike trees trees') (input : Text) :
    boundedBy? trees input = boundedBy? trees' input := by
  rw [boundedBy?_eq_findSome?, boundedBy?_eq_findSome?]
  refine h.findSome?_eq ?_ ?_
  · rintro ⟨s, children⟩ hn ⟨t, children'⟩ hm (rfl : s = t)
    exact bound?_congr input (hbelow _ hn _ hm rfl).1
  · intro n hn m hm _ _ ht
    exact hdecided.eq_of_bound? hplain h.proper hinner hn hm ht

end

/-- Below a node of a decisive trie descents do not depend on the order of siblings. -/
theorem Alike.descents_eq (n : Node) : ∀ trees, Alike n.children trees → Decisive n.children →
    (∀ q ∈ pathsOf n.children, ∀ s ∈ q, Inner s) →
      (∀ input, descend n.children input = descend trees input) ∧
        (NoTies isPlain n.children →
          ∀ input, boundedBy? n.children input = boundedBy? trees input) := by
  induction n using Node.induction with
  | step label children ih =>
    intro trees h hdecisive hinner
    dsimp only [children_mk] at h hdecisive hinner ⊢
    have hlabels : ∀ n ∈ children, Inner n.label := fun n hn =>
      hinner [n.label] (singleton_mem_pathsOf.mpr (List.mem_map_of_mem hn)) _
        (List.mem_singleton_self _)
    have hbelow : GoOnAlike children trees := by
      intro n hn m hm heq
      have hinnerBelow : ∀ q ∈ pathsOf n.children, ∀ s ∈ q, Inner s := fun q hq s hs =>
        hinner (n.label :: q) ((h.proper.cons_mem_pathsOf hn).mpr (.inr hq)) s
          (List.mem_cons_of_mem _ hs)
      obtain ⟨hdescend, hbounded⟩ :=
        ih n hn m.children (h.below hn hm heq) (hdecisive.children hn) hinnerBelow
      exact ⟨hdescend, fun hs =>
        hbounded (hdecisive.bounds n (mem_nodesOf.mpr ⟨n, hn, .inl rfl⟩) hs)⟩
    exact ⟨h.descend_eq hdecisive.top hlabels hbelow,
      fun hplain => h.boundedBy?_eq hdecisive.top hplain hlabels hbelow⟩

end Node
end RouteTemplates
