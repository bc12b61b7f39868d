import RouteTemplates.Proofs.History
import RouteTemplates.Proofs.Trie.ArenaInsertion
import RouteTemplates.Proofs.Trie.Ranked

/-!
# The order of siblings in time

The cells of an arena are numbered in the order in which they were made, so the
numbers of siblings tell which was registered first.  Ranking is stable, but the
numbers of ways on change from one registration to the next: siblings that tie may
have been told apart before, and ranking leaves them as that had put them.  So the
order of two siblings is that of the last time they did not tie, and the order of
registration if they always have.

A registration first adds cells, which puts new places behind the old ones of a
level, and then puts levels in another order.  The two are described apart.
-/

namespace RouteTemplates

theorem pair_sublist_or {α : Type} {l : List α} {a b : α} (ha : a ∈ l) (hb : b ∈ l)
    (hne : a ≠ b) : [a, b].Sublist l ∨ [b, a].Sublist l := by
  induction l with
  | nil => cases ha
  | cons c l ih =>
    by_cases hac : a = c
    · have hbl : b ∈ l := (List.mem_cons.mp hb).resolve_left fun hbc => hne (hac.trans hbc.symm)
      rw [hac]
      exact .inl ((List.singleton_sublist.mpr hbl).cons_cons c)
    · have hal : a ∈ l := (List.mem_cons.mp ha).resolve_left hac
      by_cases hbc : b = c
      · rw [hbc]
        exact .inr ((List.singleton_sublist.mpr hal).cons_cons c)
      · have hbl : b ∈ l := (List.mem_cons.mp hb).resolve_left hbc
        exact (ih hal hbl).imp (·.cons c) (·.cons c)

theorem not_pair_sublist_of_nodup {α : Type} {l : List α} {a b : α} (h : l.Nodup)
    (hab : [a, b].Sublist l) : ¬ [b, a].Sublist l := by
  induction l with
  | nil => cases hab
  | cons c l ih =>
    obtain ⟨hc, hl⟩ := List.nodup_cons.mp h
    intro hba
    cases hab with
    | cons _ hab =>
      cases hba with
      | cons _ hba => exact ih hl hab hba
      | cons_cons _ hba => exact hc (hab.subset (by simp))
    | cons_cons _ hab =>
      cases hba with
      | cons _ hba => exact hc (hba.subset (by simp))
      | cons_cons _ hba => exact hc (List.singleton_sublist.mp hab)

namespace Arena

/-! ## Adding cells -/

/-- From `a` to `b` cells were added.  Each level begins with the places it had, and
the places added behind them are new ones in the order of their making. -/
structure Adds (a b : Arena) : Prop where
  length_le : a.cells.length ≤ b.cells.length
  level : ∀ p, ∃ made, b.level p = a.level p ++ made ∧
    (∀ k ∈ made, a.cells.length ≤ k ∧ k < b.cells.length) ∧ made.Pairwise (· < ·)

theorem Adds.refl (a : Arena) : Adds a a :=
  ⟨Nat.le_refl _, fun _ => ⟨[], by simp⟩⟩

theorem Adds.trans {a b c : Arena} (hab : Adds a b) (hbc : Adds b c) : Adds a c := by
  have hleAB := hab.length_le
  have hleBC := hbc.length_le
  refine ⟨hleAB.trans hleBC, fun p => ?_⟩
  obtain ⟨made, hb, hmade, hsorted⟩ := hab.level p
  obtain ⟨later, hc, hlater, hsortedLater⟩ := hbc.level p
  refine ⟨made ++ later, by rw [hc, hb, List.append_assoc], fun k hk => ?_, ?_⟩
  · rcases List.mem_append.mp hk with hk | hk
    · have := hmade k hk
      omega
    · have := hlater k hk
      omega
  · refine List.pairwise_append.mpr ⟨hsorted, hsortedLater, fun k hk m hm => ?_⟩
    have := hmade k hk
    have := hlater m hm
    omega

theorem level_of_not_hasLevel {a : Arena} {p : Option Nat} (h : ¬ a.HasLevel p) :
    a.level p = [] := by
  cases p with
  | none => exact absurd (fun i hi => nomatch hi) h
  | some k =>
    have hk : a.cells.length ≤ k := by
      by_contra hlt
      exact h fun i hi => by
        obtain rfl := Option.some.inj hi
        omega
    rw [level, List.getElem?_eq_none hk]
    rfl

theorem level_extend (a : Arena) (s : Segment) (p : Option Nat) :
    (a.extend s).level p = a.level p := by
  by_cases hp : a.HasLevel p
  · exact level_extend_of_hasLevel hp s
  · rw [level_of_not_hasLevel hp]
    by_cases hp' : (a.extend s).HasLevel p
    · cases p with
      | none => exact absurd (fun i hi => nomatch hi) hp
      | some k =>
        have hk : k = a.cells.length := by
          have hlt := hp' k rfl
          have hge : ¬ k < a.cells.length := fun hlt => hp fun i hi => by
            obtain rfl := Option.some.inj hi
            exact hlt
          rw [length_extend] at hlt
          omega
        rw [hk, level_extend_self]
    · exact level_of_not_hasLevel hp'

theorem adds_make {a : Arena} {parent : Option Nat} (h : a.HasLevel parent) (s : Segment) :
    Adds a (a.make parent s) := by
  have hlength : (a.make parent s).cells.length = a.cells.length + 1 := by simp [make]
  refine ⟨by omega, fun p => ?_⟩
  by_cases hp : p = parent
  · subst hp
    refine ⟨[a.cells.length], level_make h s, ?_, List.pairwise_singleton _ _⟩
    intro k hk
    rw [List.mem_singleton.mp hk]
    omega
  · refine ⟨[], ?_, by simp, .nil⟩
    rw [make, level_setLevel_of_ne hp, level_extend, List.append_nil]

theorem adds_child {a : Arena} {parent : Option Nat} (h : a.HasLevel parent) (s : Segment) :
    Adds a (a.child parent s).2 ∧
      (a.child parent s).2.HasLevel (some (a.child parent s).1) := by
  rw [child]
  cases hfind : (a.level parent).find? fun i => a.label? i = some s with
  | some i =>
    refine ⟨.refl a, fun k hk => ?_⟩
    obtain rfl := Option.some.inj hk
    have hlabel : a.label? i = some s := by simpa using List.find?_some hfind
    exact lt_of_label? hlabel
  | none =>
    refine ⟨adds_make h s, fun k hk => ?_⟩
    obtain rfl := Option.some.inj hk
    simp [make]

theorem adds_grow (path : List Segment) {a : Arena} {parent : Option Nat}
    (h : a.HasLevel parent) : Adds a (grow path parent a).2 := by
  induction path generalizing a parent with
  | nil => exact .refl a
  | cons s path ih =>
    obtain ⟨hadds, hlevel⟩ := adds_child h s
    exact hadds.trans (ih hlevel)

/-! ## Reordering levels -/

/-- From `a` to `b` levels were put in another order, which kept a place in front of
another one that does not outrank it. -/
structure Reorders (a b : Arena) : Prop where
  length_eq : b.cells.length = a.cells.length
  outranks_eq : ∀ i j, b.outranks i j = a.outranks i j
  perm : ∀ p, (b.level p).Perm (a.level p)
  stable : ∀ p i j, [i, j].Sublist (a.level p) → a.outranks j i = false →
    [i, j].Sublist (b.level p)

theorem Reorders.refl (a : Arena) : Reorders a a :=
  ⟨rfl, fun _ _ => rfl, fun _ => .refl _, fun _ _ _ h _ => h⟩

theorem Reorders.trans {a b c : Arena} (hab : Reorders a b) (hbc : Reorders b c) :
    Reorders a c where
  length_eq := hbc.length_eq.trans hab.length_eq
  outranks_eq i j := (hbc.outranks_eq i j).trans (hab.outranks_eq i j)
  perm p := (hbc.perm p).trans (hab.perm p)
  stable p i j h hout := by
    refine hbc.stable p i j (hab.stable p i j h hout) ?_
    rw [hab.outranks_eq, hout]

theorem level_rankLevel_eq (a : Arena) (parent p : Option Nat) :
    (rankLevel parent a).level p =
      if p = parent then rankBy a.outranks (a.level p) else a.level p := by
  by_cases hp : p = parent
  · subst hp
    rw [if_pos rfl]
    by_cases hlevel : a.HasLevel p
    · exact level_rankLevel hlevel
    · have hlevel' : ¬ (rankLevel p a).HasLevel p := by
        unfold HasLevel
        rw [length_rankLevel]
        exact hlevel
      rw [level_of_not_hasLevel hlevel, level_of_not_hasLevel hlevel']
      rfl
  · rw [if_neg hp]
    exact level_setLevel_of_ne hp _

theorem cells_rankLevel_standing (a : Arena) (parent : Option Nat) (i : Nat) :
    (rankLevel parent a).cells[i]?.map Cell.standing = a.cells[i]?.map Cell.standing := by
  cases parent with
  | none => rfl
  | some k =>
    by_cases hk : k = i
    · subst hk
      cases hcell : a.cells[k]? with
      | none => simp [rankLevel, setLevel, hcell]
      | some cell =>
        have hlength := (rankBy_perm a.outranks cell.children).length_eq
        simp [rankLevel, setLevel, level, hcell, Cell.standing, hlength]
    · simp [rankLevel, setLevel, hk]

theorem outranks_eq (a : Arena) (i j : Nat) :
    a.outranks i j = ((a.cells[i]?.map Cell.standing).bind fun s =>
      (a.cells[j]?.map Cell.standing).map s.outranks).getD false := by
  rw [outranks]
  cases a.cells[i]? <;> cases a.cells[j]? <;> rfl

theorem outranks_congr {a b : Arena}
    (h : ∀ i : Nat, b.cells[i]?.map Cell.standing = a.cells[i]?.map Cell.standing) (i j : Nat) :
    b.outranks i j = a.outranks i j := by
  rw [outranks_eq, outranks_eq, h, h]

theorem reorders_rankLevel (parent : Option Nat) (a : Arena) :
    Reorders a (rankLevel parent a) where
  length_eq := length_rankLevel parent a
  outranks_eq := outranks_congr (cells_rankLevel_standing a parent)
  perm p := by
    rw [level_rankLevel_eq]
    split
    · exact rankBy_perm _ _
    · exact .refl _
  stable p i j h hout := by
    rw [level_rankLevel_eq]
    split
    · exact pair_sublist_rankBy h hout
    · exact h

theorem reorders_foldr (parents : List (Option Nat)) (a : Arena) :
    Reorders a (parents.foldr rankLevel a) := by
  induction parents with
  | nil => exact .refl a
  | cons parent parents ih => exact ih.trans (reorders_rankLevel parent _)

/-! ## A registration -/

/-- A registration adds cells and then puts levels in order. -/
theorem exists_adds_reorders (a : Arena) (t : Template) :
    ∃ grown, Adds a grown ∧ Reorders grown (a.insert t) := by
  have hroots : a.HasLevel none := fun i hi => nomatch hi
  have hgrow := adds_grow t.unfilled.segments hroots
  refine ⟨_, hgrow, ?_⟩
  rw [insert]
  dsimp only
  split
  · exact .refl _
  · exact reorders_foldr _ _

section

variable {a : Arena} {t : Template} {p : Option Nat} {i j : Nat}

theorem length_le_insert (a : Arena) (t : Template) :
    a.cells.length ≤ (a.insert t).cells.length := by
  obtain ⟨grown, hadds, hreorders⟩ := exists_adds_reorders a t
  rw [hreorders.length_eq]
  exact hadds.length_le

/-- No cell comes into a level later than it is made. -/
theorem mem_level_of_insert (hi : i ∈ (a.insert t).level p) (hlt : i < a.cells.length) :
    i ∈ a.level p := by
  obtain ⟨grown, hadds, hreorders⟩ := exists_adds_reorders a t
  obtain ⟨made, hlevel, hmade, _⟩ := hadds.level p
  rw [(hreorders.perm p).mem_iff, hlevel] at hi
  refine (List.mem_append.mp hi).resolve_right fun hi => ?_
  have := hmade i hi
  omega

/-- Siblings keep their order unless the second one now outranks the first. -/
theorem pair_sublist_insert (h : [i, j].Sublist (a.level p))
    (hout : (a.insert t).outranks j i = false) : [i, j].Sublist ((a.insert t).level p) := by
  obtain ⟨grown, hadds, hreorders⟩ := exists_adds_reorders a t
  obtain ⟨made, hlevel, _⟩ := hadds.level p
  rw [hreorders.outranks_eq] at hout
  refine hreorders.stable p i j ?_ hout
  rw [hlevel]
  exact h.trans (List.sublist_append_left _ _)

/-- A new cell stands behind its siblings unless it outranks them. -/
theorem pair_sublist_insert_made (hij : i < j) (hi : i ∈ (a.insert t).level p)
    (hj : j ∈ (a.insert t).level p) (hnew : j ∉ a.level p)
    (hout : (a.insert t).outranks j i = false) : [i, j].Sublist ((a.insert t).level p) := by
  obtain ⟨grown, hadds, hreorders⟩ := exists_adds_reorders a t
  obtain ⟨made, hlevel, _, hsorted⟩ := hadds.level p
  rw [hreorders.outranks_eq] at hout
  refine hreorders.stable p i j ?_ hout
  rw [(hreorders.perm p).mem_iff, hlevel, List.mem_append] at hi hj
  have hj := hj.resolve_left hnew
  rw [hlevel]
  rcases hi with hi | hi
  · exact (List.singleton_sublist.mpr hi).append (List.singleton_sublist.mpr hj)
  · rcases pair_sublist_or hi hj (Nat.ne_of_lt hij) with hpair | hpair
    · exact hpair.trans (List.sublist_append_right _ _)
    · have hlt := (List.pairwise_cons.mp (List.Pairwise.sublist hpair hsorted)).1 i (by simp)
      omega

/-- A registration after which two siblings tie leaves them in the order they had. -/
theorem pair_sublist_insert_iff (hnodup : ((a.insert t).level p).Nodup) (hi : i ∈ a.level p)
    (hj : j ∈ a.level p) (hne : i ≠ j) (hij : (a.insert t).outranks i j = false)
    (hji : (a.insert t).outranks j i = false) :
    [i, j].Sublist ((a.insert t).level p) ↔ [i, j].Sublist (a.level p) := by
  refine ⟨fun h => ?_, fun h => pair_sublist_insert h hji⟩
  refine (pair_sublist_or hi hj hne).resolve_right fun hback => ?_
  exact not_pair_sublist_of_nodup hnodup h (pair_sublist_insert hback hij)

end

/-! ## Levels of an arena that holds a trie -/

section

variable {a : Arena} {trees : List Node} {p : Option Nat} {i j : Nat}

theorem LaysOut.exists_standing {places : List Nat} {used : Multiset Nat}
    (h : LaysOut a places trees used) :
    ∀ j ∈ places, ∃ n ∈ trees, a.cells[j]?.map Cell.standing = some n.standing := by
  induction h with
  | nil => simp
  | cons hlabel _ hbelow _ _ ih =>
    refine List.forall_mem_cons.mpr ⟨⟨_, List.mem_cons_self, standing_of_laysOut hlabel hbelow⟩, ?_⟩
    intro j hj
    obtain ⟨n, hn, hstanding⟩ := ih j hj
    exact ⟨n, List.mem_cons_of_mem _ hn, hstanding⟩

/-- The places of ranked trees are in order, and so is the level of each cell they
take up. -/
theorem LaysOut.inOrder {places : List Nat} {used : Multiset Nat}
    (h : LaysOut a places trees used) (hranked : Node.RankedForest trees) :
    InOrder a.outranks places ∧ ∀ i ∈ used, InOrder a.outranks (a.level (some i)) := by
  induction h with
  | nil => exact ⟨inOrder_nil, by simp⟩
  | @cons i label children below rest places trees hlabel _ hbelow hrest ihBelow ihRest =>
    obtain ⟨hfirst, hinOrder⟩ := inOrder_cons.mp hranked.inOrder
    obtain ⟨htree, hmore⟩ := List.forall_mem_cons.mp hranked.ranked
    obtain ⟨hplaces, hlevelsRest⟩ := ihRest ⟨hinOrder, hmore⟩
    obtain ⟨hlevel, hlevelsBelow⟩ := ihBelow htree.forest
    refine ⟨inOrder_cons.mpr ⟨fun j hj => ?_, hplaces⟩, fun k hk => ?_⟩
    · obtain ⟨n, hn, hstanding⟩ := hrest.exists_standing j hj
      rw [outranks_of_standing hstanding (standing_of_laysOut hlabel hbelow)]
      exact hfirst n hn
    · rw [Multiset.mem_add, Multiset.mem_add, Multiset.mem_singleton] at hk
      rcases hk with (rfl | hk) | hk
      · exact hlevel
      · exact hlevelsBelow k hk
      · exact hlevelsRest k hk

theorem Holds.inOrder_level (h : a.Holds trees) (hranked : Node.RankedForest trees)
    (p : Option Nat) : InOrder a.outranks (a.level p) := by
  obtain ⟨hroots, hbelow⟩ := LaysOut.inOrder h hranked
  cases p with
  | none => exact hroots
  | some i =>
    by_cases hi : i < a.cells.length
    · exact hbelow i (Multiset.mem_Ico.mpr ⟨Nat.zero_le i, hi⟩)
    · rw [level_of_not_hasLevel fun hlevel => hi (hlevel i rfl)]
      exact inOrder_nil

theorem level_sublist (a : Arena) (p : Option Nat) :
    (a.level p).Sublist (a.roots ++ a.cells.flatMap Cell.children) := by
  cases p with
  | none => exact List.sublist_append_left _ _
  | some i =>
    rw [level]
    cases hcell : a.cells[i]? with
    | none => exact List.nil_sublist _
    | some c =>
      have hc : c.children ∈ a.cells.map Cell.children :=
        List.mem_map_of_mem (List.mem_of_getElem? hcell)
      rw [List.flatMap_def]
      exact (List.sublist_flatten_of_mem hc).trans (List.sublist_append_right _ _)

theorem Holds.nodup_level (h : a.Holds trees) (p : Option Nat) : (a.level p).Nodup :=
  (h.perm_range.nodup_iff.mpr List.nodup_range).sublist (level_sublist a p)

theorem Holds.lt_of_mem_level (h : a.Holds trees) (hi : i ∈ a.level p) : i < a.cells.length := by
  have hmem := h.perm_range.mem_iff.mp ((level_sublist a p).subset hi)
  exact List.mem_range.mp hmem

theorem outranks_asymm (h : a.outranks i j) : a.outranks j i = false := by
  unfold outranks at h ⊢
  cases hi : a.cells[i]? <;> cases hj : a.cells[j]? <;> simp_all [Standing.outranks_asymm]

theorem outranks_eq_false_of_le (h : a.cells.length ≤ i) : a.outranks i j = false := by
  rw [outranks, List.getElem?_eq_none h]

end

/-! ## Along a history -/

theorem ofTemplates_concat (ts : List Template) (t : Template) :
    ofTemplates (ts ++ [t]) = (ofTemplates ts).insert t := by
  rw [ofTemplates, List.foldl_concat, ← ofTemplates]

theorem length_ofTemplates_mono {us ts : List Template} (h : us <+: ts) :
    (ofTemplates us).cells.length ≤ (ofTemplates ts).cells.length := by
  obtain ⟨more, rfl⟩ := h
  induction more using List.reverseRecOn with
  | nil => rw [List.append_nil]
  | append_singleton more t ih =>
    rw [← List.append_assoc, ofTemplates_concat]
    exact ih.trans (length_le_insert _ t)

/-- Whenever `j` outranked `i` on the way to the templates, `i` outranked `j` later. -/
def Regains (ts : List Template) (i j : Nat) : Prop :=
  ∀ us, us <+: ts → (ofTemplates us).outranks j i →
    ∃ vs, us <+: vs ∧ vs <+: ts ∧ (ofTemplates vs).outranks i j

section

variable {ts : List Template} {t : Template} {i j : Nat}

theorem regains_of_outranks (h : (ofTemplates ts).outranks i j) : Regains ts i j :=
  fun _ hus _ => ⟨ts, hus, List.prefix_refl ts, h⟩

theorem not_regains_of_outranks (h : (ofTemplates ts).outranks j i) : ¬ Regains ts i j := by
  intro hregains
  obtain ⟨vs, hts, hvs, hback⟩ := hregains ts (List.prefix_refl ts) h
  rw [hvs.eq_of_length_le hts.length_le, outranks_asymm h] at hback
  cases hback

theorem regains_of_length_le (h : (ofTemplates ts).cells.length ≤ j)
    (hlast : (ofTemplates (ts ++ [t])).outranks j i = false) : Regains (ts ++ [t]) i j := by
  intro us hus hout
  rcases List.prefix_concat_iff.mp hus with rfl | hus
  · rw [hlast] at hout
    cases hout
  · rw [outranks_eq_false_of_le ((length_ofTemplates_mono hus).trans h)] at hout
    cases hout

/-- A registration after which the two tie decides nothing. -/
theorem regains_concat_iff (hij : (ofTemplates (ts ++ [t])).outranks i j = false)
    (hji : (ofTemplates (ts ++ [t])).outranks j i = false) :
    Regains (ts ++ [t]) i j ↔ Regains ts i j := by
  constructor
  · intro h us hus hout
    obtain ⟨vs, huv, hvs, hback⟩ := h us (hus.trans (List.prefix_append ts [t])) hout
    rcases List.prefix_concat_iff.mp hvs with rfl | hvs
    · rw [hij] at hback
      cases hback
    · exact ⟨vs, huv, hvs, hback⟩
  · intro h us hus hout
    rcases List.prefix_concat_iff.mp hus with rfl | hus
    · rw [hji] at hout
      cases hout
    · obtain ⟨vs, huv, hvs, hback⟩ := h us hus hout
      exact ⟨vs, huv, hvs.trans (List.prefix_append ts [t]), hback⟩

end

theorem pair_sublist_level_iff (ts : List Template) {p : Option Nat} {i j : Nat} (hij : i < j)
    (hi : i ∈ (ofTemplates ts).level p) (hj : j ∈ (ofTemplates ts).level p) :
    [i, j].Sublist ((ofTemplates ts).level p) ↔ Regains ts i j := by
  induction ts using List.reverseRecOn with
  | nil => cases p <;> cases hi
  | append_singleton ts t ih =>
    have hholds := holds_ofTemplates (ts ++ [t])
    have hinOrder := hholds.inOrder_level (Trie.rankedForest_foldl (ts ++ [t])) p
    have hpair := pair_sublist_or hi hj (Nat.ne_of_lt hij)
    -- Siblings that do not tie now stand as ranking puts them.
    by_cases hji : (ofTemplates (ts ++ [t])).outranks j i
    · refine iff_of_false (fun hsub => ?_) (not_regains_of_outranks hji)
      rw [hinOrder.of_pair hsub] at hji
      cases hji
    by_cases hout : (ofTemplates (ts ++ [t])).outranks i j
    · refine iff_of_true (hpair.resolve_right fun hsub => ?_) (regains_of_outranks hout)
      rw [hinOrder.of_pair hsub] at hout
      cases hout
    -- Those that tie stand as before, or the second one is new and stands behind.
    rw [Bool.not_eq_true] at hji hout
    by_cases hold : j ∈ (ofTemplates ts).level p
    · rw [regains_concat_iff hout hji]
      have hnodup := hholds.nodup_level p
      have hlt := (holds_ofTemplates ts).lt_of_mem_level hold
      rw [ofTemplates_concat] at hi hji hout hnodup ⊢
      have hiOld := mem_level_of_insert hi (hij.trans hlt)
      rw [← ih hiOld hold]
      exact pair_sublist_insert_iff hnodup hiOld hold (Nat.ne_of_lt hij) hout hji
    · have hnew : (ofTemplates ts).cells.length ≤ j := by
        by_contra hlt
        rw [ofTemplates_concat] at hj
        exact hold (mem_level_of_insert hj (by omega))
      refine iff_of_true ?_ (regains_of_length_le hnew hji)
      rw [ofTemplates_concat] at hi hj hji ⊢
      exact pair_sublist_insert_made hij hi hj hold hji

end Arena

open Arena

/-- After any history, of two siblings the one that was made first stands first
exactly if it has outranked the other again each time that was done to it. -/
theorem Catalog.Registered.siblings_order {c : Catalog} {ts : List Template}
    (h : c.Registered ts) :
    (ofTemplates ts).Holds c.trie.roots ∧
      ∀ p i j, i < j → i ∈ (ofTemplates ts).level p → j ∈ (ofTemplates ts).level p →
        ([i, j].Sublist ((ofTemplates ts).level p) ↔ Regains ts i j) := by
  refine ⟨?_, fun p i j => pair_sublist_level_iff ts⟩
  rw [h.trie_eq]
  exact holds_ofTemplates ts

/-- Two slots of which first the second and then the first gets another way on.  They
tie in the end, and the second stands in front. -/
def overtakenSlots : List Template :=
  [.counted [.start, .slot ['<', 'a', '>'], .finish none],
    .counted [.start, .slot ['<', 'b', '>'], .finish none],
    .counted [.start, .slot ['<', 'b', '>'], .literal .plain ['x'], .finish none],
    .counted [.start, .slot ['<', 'a', '>'], .literal .plain ['x'], .finish none]]

theorem registered_overtakenSlots :
    (overtakenSlots.foldl Catalog.insert (.new .braces .standard)).Registered overtakenSlots :=
  Catalog.registered_foldl_ofSegments _ _ (by decide)

theorem Catalog.Registered.siblings_order_of_overtaken :
    (ofTemplates overtakenSlots).level (some 0) = [3, 1] ∧ ¬ Regains overtakenSlots 1 3 := by
  have hlevel : (ofTemplates overtakenSlots).level (some 0) = [3, 1] := by decide
  obtain ⟨_, horder⟩ := registered_overtakenSlots.siblings_order
  have hiff := horder (some 0) 1 3 (by decide) (by decide) (by decide)
  refine ⟨hlevel, fun hregains => ?_⟩
  have hfirst := hiff.mpr hregains
  rw [hlevel] at hfirst
  exact absurd hfirst (by decide)

/-- Siblings that tie need not stand in the order in which they were made. -/
theorem Catalog.Registered.not_siblings_as_registered :
    ¬ ∀ (c : Catalog) (ts : List Template), c.Registered ts → ∀ p i j, i < j →
      i ∈ (ofTemplates ts).level p → j ∈ (ofTemplates ts).level p →
        (ofTemplates ts).outranks i j = false → (ofTemplates ts).outranks j i = false →
          [i, j].Sublist ((ofTemplates ts).level p) := by
  intro h
  have hfirst := h _ _ registered_overtakenSlots (some 0) 1 3 (by decide) (by decide) (by decide)
    (by decide) (by decide)
  exact absurd hfirst (by decide)

end RouteTemplates
