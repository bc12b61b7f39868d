import RouteTemplates.Proofs.Trie.Layout
import RouteTemplates.Proofs.Trie.Represents

/-!
# Adding a template to an arena

Adding a path to an arena grows the cells that are missing and ranks the levels
afterwards, while adding it to trees ranks each level on the way back up.  Both
give the same trees.  The induction is on the path: below each parent the arena
lays out what the trees say, and the cells taken up are the old ones and those
that were made.
-/

namespace RouteTemplates
namespace Arena

/-- The level is there, and it is not that of a cell in `used`. -/
def Above (a : Arena) (parent : Option Nat) (used : Multiset Nat) : Prop :=
  ∀ i ∈ parent, i < a.cells.length ∧ i ∉ used

/-- `b` comes from `a` by changes below the parent.  Labels stay, the level of the
parent may get new cells, and of the others only the levels of the cells in `used`
may be changed. -/
structure Grows (a b : Arena) (parent : Option Nat) (used : Multiset Nat) : Prop where
  length_le : a.cells.length ≤ b.cells.length
  label : ∀ i < a.cells.length, b.label? i = a.label? i
  level : ∀ p, p ≠ parent → Above a p used → b.level p = a.level p
  children : ∀ i ∈ b.level parent, i ∈ a.level parent ∨ a.cells.length ≤ i

variable {a b : Arena} {parent : Option Nat} {trees : List Node} {used : Multiset Nat}

theorem Grows.refl (a : Arena) (parent : Option Nat) (used : Multiset Nat) :
    Grows a a parent used :=
  ⟨Nat.le_refl _, fun _ _ => rfl, fun _ _ _ => rfl, fun _ hi => .inl hi⟩

theorem Above.hasLevel (h : Above a parent used) : a.HasLevel parent := fun i hi => (h i hi).1

theorem Above.ne (h : Above a parent used) {i : Nat} (hi : i ∈ used) : some i ≠ parent :=
  fun heq => (h i heq.symm).2 hi

theorem above_some {i : Nat} : Above a (some i) used ↔ i < a.cells.length ∧ i ∉ used :=
  ⟨fun h => h i rfl, fun h _ hk => Option.some.inj hk ▸ h⟩

theorem HasLevel.above_zero (h : a.HasLevel parent) : Above a parent 0 :=
  fun i hi => ⟨h i hi, Multiset.notMem_zero i⟩

/-! ## Ranking -/

theorem keeps_rankLevel (h : Above a parent used) : Keeps a (rankLevel parent a) used := by
  intro i hi
  exact ⟨label?_setLevel _ _ _ _, level_setLevel_of_ne (h.ne hi) _⟩

theorem level_rankLevel (h : a.HasLevel parent) :
    (rankLevel parent a).level parent = rankBy a.outranks (a.level parent) :=
  level_setLevel_self h _

theorem LaysOut.rankLevel (h : LaysOut a (a.level parent) trees used)
    (habove : Above a parent used) :
    LaysOut (rankLevel parent a) ((rankLevel parent a).level parent) (Node.rank trees) used := by
  rw [level_rankLevel habove.hasLevel]
  exact h.rank.frame (keeps_rankLevel habove)

theorem grows_rankLevel (h : a.HasLevel parent) : Grows a (rankLevel parent a) parent 0 where
  length_le := by rw [Arena.rankLevel, length_setLevel]
  label i _ := label?_setLevel _ _ _ _
  level p hp _ := level_setLevel_of_ne hp _
  children i hi := by
    rw [level_rankLevel h, (rankBy_perm _ _).mem_iff] at hi
    exact .inl hi

/-! ## Children -/

theorem level_make (h : a.HasLevel parent) (s : Segment) :
    (a.make parent s).level parent = a.level parent ++ [a.cells.length] := by
  refine level_setLevel_self (fun i hi => ?_) _
  rw [length_extend]
  exact Nat.lt_succ_of_lt (h i hi)

theorem grows_make (h : a.HasLevel parent) (s : Segment) : Grows a (a.make parent s) parent 0 where
  length_le := by simp [make]
  label i hi := by rw [make, label?_setLevel, label?_extend_of_lt hi]
  level p hp hlt := by
    rw [make, level_setLevel_of_ne hp, level_extend_of_hasLevel hlt.hasLevel]
  children i hi := by
    rw [level_make h] at hi
    rcases List.mem_append.mp hi with hi | hi
    · exact .inl hi
    · exact .inr (Nat.le_of_eq (List.mem_singleton.mp hi).symm)

theorem Grows.keeps (hg : Grows a b parent 0) (h : LaysOut a (a.level parent) trees used)
    (habove : Above a parent used) : Keeps a b used := by
  intro i hi
  have hlt := (h.of_mem_used i hi).1
  exact ⟨hg.label i hlt, hg.level _ (habove.ne hi) (above_some.mpr ⟨hlt, Multiset.notMem_zero i⟩)⟩

/-- The child with the label, made or not, is where a tree with that label stands
or is still to stand. -/
theorem child_opens (h : LaysOut a (a.level parent) trees used) (habove : Above a parent used)
    (s : Segment) :
    Grows a (a.child parent s).2 parent 0 ∧ ∃ children below rest,
      Opens (a.child parent s).2 ((a.child parent s).2.level parent) s trees
        (a.child parent s).1 children below rest ∧
      {(a.child parent s).1} + below + rest =
        used + Multiset.Ico a.cells.length (a.child parent s).2.cells.length := by
  rw [child]
  cases hfind : (a.level parent).find? fun i => a.label? i = some s with
  | some i =>
    obtain ⟨children, below, rest, rfl, _, hopens⟩ := h.opens hfind
    exact ⟨.refl _ _ _, children, below, rest, hopens, by simp⟩
  | none =>
    have hgrows := grows_make habove.hasLevel s
    refine ⟨hgrows, [], 0, used, ?_, ?_⟩
    · rw [level_make habove.hasLevel]
      refine h.opens_made hfind (hgrows.keeps h habove) ?_ ?_
      · rw [make, label?_setLevel, label?_extend_self]
      · have hne : some a.cells.length ≠ parent := fun heq =>
          Nat.lt_irrefl _ (habove _ heq.symm).1
        rw [make, level_setLevel_of_ne hne, level_extend_self]
    · have hlength : (a.make parent s).cells.length = a.cells.length + 1 := by simp [make]
      have hnew : Multiset.Ico a.cells.length (a.cells.length + 1) = {a.cells.length} :=
        congrArg Finset.val (Nat.Ico_succ_singleton _)
      rw [hlength, hnew, add_zero, add_comm]

/-! ## Paths -/

def graft (path : List Segment) (parent : Option Nat) (a : Arena) : Arena :=
  (grow path parent a).1.foldr Arena.rankLevel (grow path parent a).2

theorem graft_cons (s : Segment) (path : List Segment) (parent : Option Nat) (a : Arena) :
    graft (s :: path) parent a =
      Arena.rankLevel parent (graft path (some (a.child parent s).1) (a.child parent s).2) := rfl

theorem length_rankLevel (parent : Option Nat) (a : Arena) :
    (Arena.rankLevel parent a).cells.length = a.cells.length := length_setLevel _ _ _

/-- The level is neither that of the cell nor one below it. -/
def Outside (a : Arena) (i : Nat) (below : Multiset Nat) (p : Option Nat) : Prop :=
  p ≠ some i ∧ Above a p below

/-- The cells in use, old and new, are made up of a child, of what is below it and of
the rest.  No cell is met twice, so the three are apart from each other and from the
levels above. -/
theorem outside_of_add_eq {i : Nat} {below rest : Multiset Nat}
    (h : LaysOut a (a.level parent) trees used) (hnodup : used.Nodup)
    (hab : a.cells.length ≤ b.cells.length)
    (hused : {i} + below + rest = used + Multiset.Ico a.cells.length b.cells.length) :
    below.Nodup ∧ i ∉ below ∧ (∀ k ∈ rest, Outside b i below (some k)) ∧
      ∀ p, Above a p used → Outside b i below p := by
  have hlt := fun k hk => (h.of_mem_used k hk).1
  have hall : ({i} + below + rest).Nodup := by
    rw [hused, Multiset.nodup_add]
    refine ⟨hnodup, Multiset.nodup_Ico, Multiset.disjoint_left.mpr fun {k} hk hnew => ?_⟩
    exact Nat.not_lt.mpr (Multiset.mem_Ico.mp hnew).1 (hlt k hk)
  obtain ⟨hfirst, _, hrest⟩ := Multiset.nodup_add.mp hall
  obtain ⟨_, hbelow, hi⟩ := Multiset.nodup_add.mp hfirst
  refine ⟨hbelow, Multiset.disjoint_left.mp hi (Multiset.mem_singleton_self i),
    fun k hk => ?_, fun p hp => ?_⟩
  · have hmem : k ∈ used + Multiset.Ico a.cells.length b.cells.length := by
      rw [← hused]
      exact Multiset.mem_add.mpr (.inr hk)
    have hkb : k < b.cells.length := by
      rcases Multiset.mem_add.mp hmem with hold | hnew
      · exact Nat.lt_of_lt_of_le (hlt k hold) hab
      · exact (Multiset.mem_Ico.mp hnew).2
    obtain ⟨hne, hnot⟩ : k ≠ i ∧ k ∉ below := by simpa using Multiset.disjoint_right.mp hrest hk
    exact ⟨fun heq => hne (Option.some.inj heq), above_some.mpr ⟨hkb, hnot⟩⟩
  · have hnot : ∀ k ∈ p, k ≠ i ∧ k ∉ below := by
      intro k hk
      obtain ⟨hka, hku⟩ := hp k hk
      have hkall : k ∉ {i} + below + rest := by
        rw [hused, Multiset.mem_add, Multiset.mem_Ico, not_or]
        exact ⟨hku, fun hnew => Nat.not_lt.mpr hnew.1 hka⟩
      simp only [Multiset.mem_add, Multiset.mem_singleton, not_or] at hkall
      exact hkall.1
    exact ⟨fun heq => (hnot i heq).1 rfl,
      fun k hk => ⟨Nat.lt_of_lt_of_le (hp k hk).1 hab, (hnot k hk).2⟩⟩

theorem Grows.trans {c d : Arena} {i : Nat} {below : Multiset Nat} (hchild : Grows a b parent 0)
    (hbelow : Grows b c (some i) below) (hrank : Grows c d parent 0)
    (houtside : ∀ p, Above a p used → Outside b i below p) (habove : Above a parent used) :
    Grows a d parent used := by
  have hab := hchild.length_le
  have hbc := hbelow.length_le
  have hlevel : ∀ p, Above a p used → c.level p = b.level p := fun p hp =>
    hbelow.level p (houtside p hp).1 (houtside p hp).2
  refine ⟨hab.trans (hbc.trans hrank.length_le), fun k hk => ?_, fun p hne hp => ?_, fun k hk => ?_⟩
  · rw [hrank.label k (by omega), hbelow.label k (by omega), hchild.label k hk]
  · have hpc : c.HasLevel p := fun k hk => Nat.lt_of_lt_of_le (hp k hk).1 (hab.trans hbc)
    rw [hrank.level p hne hpc.above_zero, hlevel p hp, hchild.level p hne hp.hasLevel.above_zero]
  · rcases hrank.children k hk with hk | hk
    · rw [hlevel parent habove] at hk
      exact hchild.children k hk
    · exact .inr (by omega)

theorem Opens.laysOut_of_grows {places : List Nat} {s : Segment} {i : Nat}
    {children : List Node} {below rest below' : Multiset Nat} {f : List Node → List Node}
    (ho : Opens a places s trees i children below rest) (hg : Grows a b (some i) below)
    (hrest : ∀ k ∈ rest, Outside a i below (some k))
    (h : LaysOut b (b.level (some i)) (f children) below') :
    LaysOut b places (Node.alter s f trees) ({i} + below' + rest) := by
  have hi := lt_of_label? ho.label
  refine ho.close (fun k hk => ?_) ((hg.label i hi).trans ho.label) (fun j hj => ?_) h
  · obtain ⟨hne, habove⟩ := hrest k hk
    exact ⟨hg.label k (above_some.mp habove).1, hg.level (some k) hne habove⟩
  · rcases hg.children j hj with hj | hj
    · exact ho.after j hj
    · exact Nat.lt_of_lt_of_le hi hj

/-- Below each parent, an arena with a path grafted lays out the trees with the path
grafted, in the cells that were in use and those that were made. -/
theorem graft_laysOut (path : List Segment) {a : Arena} {parent : Option Nat}
    {trees : List Node} {used : Multiset Nat} (h : LaysOut a (a.level parent) trees used)
    (hnodup : used.Nodup) (habove : Above a parent used) :
    LaysOut (graft path parent a) ((graft path parent a).level parent) (Node.graft path trees)
        (used + Multiset.Ico a.cells.length (graft path parent a).cells.length) ∧
      Grows a (graft path parent a) parent used := by
  induction path generalizing a parent trees used with
  | nil =>
    refine ⟨?_, .refl _ _ _⟩
    simpa [graft, grow, Node.graft] using h
  | cons s path ih =>
    obtain ⟨hchild, children, below, rest, hopens, hused⟩ := child_opens h habove s
    rw [graft_cons, length_rankLevel]
    generalize a.child parent s = found at hchild hopens hused ⊢
    obtain ⟨i, b⟩ := found
    dsimp only at hchild hopens hused ⊢
    have hab := hchild.length_le
    obtain ⟨hbelowNodup, hi, hrest, houtside⟩ := outside_of_add_eq h hnodup hab hused
    obtain ⟨hlay, hgrows⟩ := ih hopens.within hbelowNodup
      (above_some.mpr ⟨lt_of_label? hopens.label, hi⟩)
    generalize graft path (some i) b = c at hlay hgrows ⊢
    have hbc := hgrows.length_le
    have hclosed := hopens.laysOut_of_grows hgrows hrest hlay
    have hcells : {i} + (below + Multiset.Ico b.cells.length c.cells.length) + rest =
        used + Multiset.Ico a.cells.length c.cells.length := by
      calc {i} + (below + Multiset.Ico b.cells.length c.cells.length) + rest
          = {i} + below + rest + Multiset.Ico b.cells.length c.cells.length := by
            rw [← add_assoc, add_right_comm]
        _ = used + Multiset.Ico a.cells.length c.cells.length := by
            rw [hused, add_assoc, Multiset.Ico_add_Ico_eq_Ico hab hbc]
    obtain ⟨hne, haboveBelow⟩ := houtside parent habove
    rw [hcells, ← hgrows.level parent hne haboveBelow] at hclosed
    have haboveAll : Above c parent (used + Multiset.Ico a.cells.length c.cells.length) := by
      intro k hk
      obtain ⟨hk, hnot⟩ := habove k hk
      refine ⟨by omega, ?_⟩
      rw [Multiset.mem_add, Multiset.mem_Ico, not_or]
      exact ⟨hnot, fun hnew => Nat.not_lt.mpr hnew.1 hk⟩
    exact ⟨hclosed.rankLevel haboveAll,
      hchild.trans hgrows (grows_rankLevel haboveAll.hasLevel) houtside habove⟩

/-! ## Templates -/

theorem child_length_le (a : Arena) (parent : Option Nat) (s : Segment) :
    a.cells.length ≤ (a.child parent s).2.cells.length := by
  rw [child]
  split <;> simp [make]

theorem grow_length_le (path : List Segment) (parent : Option Nat) (a : Arena) :
    a.cells.length ≤ (grow path parent a).2.cells.length := by
  induction path generalizing parent a with
  | nil => exact Nat.le_refl _
  | cons s path ih => exact (child_length_le a parent s).trans (ih _ _)

/-- No cell is made for a path exactly if the trees hold it, and then nothing is
changed. -/
theorem grow_of_laysOut (path : List Segment) (h : LaysOut a (a.level parent) trees used) :
    (Node.holds path trees → (grow path parent a).2 = a) ∧
      (¬ Node.holds path trees → a.cells.length < (grow path parent a).2.cells.length) := by
  induction path generalizing parent trees used with
  | nil => exact ⟨fun _ => rfl, fun hnot => absurd rfl hnot⟩
  | cons s path ih =>
    rw [grow, child, Node.holds]
    cases hfind : (a.level parent).find? fun i => a.label? i = some s with
    | some i =>
      obtain ⟨children, below, rest, _, htree, hopens⟩ := h.opens hfind
      rw [htree]
      exact ih hopens.within
    | none =>
      rw [h.find?_eq_none hfind]
      refine ⟨fun hheld => absurd hheld Bool.false_ne_true, fun _ => ?_⟩
      refine Nat.lt_of_lt_of_le ?_ (grow_length_le path _ _)
      simp [make]

/-- The trees are all there is in the arena. -/
def Holds (a : Arena) (trees : List Node) : Prop :=
  LaysOut a a.roots trees (Multiset.Ico 0 a.cells.length)

theorem Holds.insert (h : a.Holds trees) (template : Template) :
    (a.insert template).Holds
      (if Node.holds template.row trees then trees else Node.graft template.row trees) := by
  have habove : Above a none (Multiset.Ico 0 a.cells.length) := fun i hi => nomatch hi
  have hroots : LaysOut a (a.level none) trees (Multiset.Ico 0 a.cells.length) := h
  obtain ⟨hheld, hmissing⟩ := grow_of_laysOut template.row hroots
  rw [Arena.insert]
  change Holds (if (grow template.row none a).2.cells.length = a.cells.length then
    (grow template.row none a).2 else graft template.row none a) _
  by_cases hrow : Node.holds template.row trees
  · rw [hheld hrow, if_pos rfl, if_pos hrow]
    exact h
  · obtain ⟨hlay, hgrows⟩ := graft_laysOut template.row hroots Multiset.nodup_Ico habove
    rw [if_neg (Nat.ne_of_gt (hmissing hrow)), if_neg hrow]
    rw [Multiset.Ico_add_Ico_eq_Ico (Nat.zero_le _) hgrows.length_le] at hlay
    exact hlay

/-- A template that is there changes no cell and ranks no level. -/
theorem Holds.insert_eq_self (h : a.Holds trees) {template : Template}
    (hrow : Node.holds template.row trees) : a.insert template = a := by
  have hroots : LaysOut a (a.level none) trees (Multiset.Ico 0 a.cells.length) := h
  have hgrown : (grow template.row none a).2 = a := (grow_of_laysOut template.row hroots).1 hrow
  show (if (grow template.row none a).2.cells.length = a.cells.length then
    (grow template.row none a).2 else graft template.row none a) = a
  rw [hgrown, if_pos rfl]

theorem roots_insert (t : Trie) (template : Template) :
    (t.insert template).roots =
      if Node.holds template.row t.roots then t.roots else Node.graft template.row t.roots := by
  rw [Trie.insert, apply_ite Trie.roots]
  rfl

/-- An arena given templates in turn holds the trie given the same templates. -/
theorem holds_ofTemplates (templates : List Template) :
    (ofTemplates templates).Holds (templates.foldl Trie.insert .empty).roots := by
  induction templates using List.reverseRecOn with
  | nil => exact .nil
  | append_singleton templates t ih =>
    rw [ofTemplates, List.foldl_concat, List.foldl_concat, roots_insert]
    exact ih.insert t

/-! ## Forests -/

theorem Holds.length_cells (h : a.Holds trees) : a.cells.length = Node.totalSize trees := by
  rw [← h.card_used]
  exact (Nat.card_Ico 0 a.cells.length).symm

theorem flatMap_level_range (a : Arena) :
    (List.range a.cells.length).flatMap (fun i => a.level (some i)) =
      a.cells.flatMap Cell.children := by
  have hlevels : (List.range a.cells.length).map (fun i => a.level (some i)) =
      a.cells.map Cell.children := by
    refine List.ext_getElem (by simp) fun i hi hi' => ?_
    have hlt : i < a.cells.length := by simpa using hi'
    simp [level, hlt]
  rw [List.flatMap_def, hlevels, ← List.flatMap_def]

/-- Each cell is a root or a child of one cell, and this once. -/
theorem Holds.perm_range (h : a.Holds trees) :
    (a.roots ++ a.cells.flatMap Cell.children).Perm (List.range a.cells.length) := by
  have hrange : Multiset.Ico 0 a.cells.length = (List.range a.cells.length : Multiset Nat) := by
    rw [List.range_eq_range']
    rfl
  have hall := h.places_add_children
  rw [hrange, Multiset.coe_bind, flatMap_level_range, Multiset.coe_add] at hall
  exact Multiset.coe_eq_coe.mp hall

theorem Holds.lt_of_mem_children (h : a.Holds trees) {i : Nat} {c : Cell}
    (hc : a.cells[i]? = some c) : ∀ j ∈ c.children, i < j := by
  intro j hj
  have hlt : i < a.cells.length := (List.getElem?_eq_some_iff.mp hc).1
  refine (h.of_mem_used i (Multiset.mem_Ico.mpr ⟨Nat.zero_le i, hlt⟩)).2 j ?_
  rw [level, hc]
  exact hj

end Arena
end RouteTemplates
