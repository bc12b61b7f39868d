import RouteTemplates.Proofs.Trie.Choice
import RouteTemplates.Proofs.Resolution.SingleBody
import RouteTemplates.Proofs.Trie.ArenaInsertion

/-!
# Aliases of literal templates

A template of one literal can be registered again under another name.  The literal
then has one more end below it.  In the trie it moves ahead of other literals of its
length, which never stand in front of the same input, and below it the new end comes
after the one that was there.  So an alias changes nothing for most inputs.

There is one exception.  A literal that one end follows is passed over when the input
goes on behind it, and the input is left to later siblings.  A literal that two ends
follow is not, so an alias can hide these siblings.
-/

namespace RouteTemplates

open Segment

/-! ## An item that rises -/

/-- An item that has come to outrank others is put ahead of some of those before it,
all of which it outranks. -/
theorem exists_rankBy_eq {α : Type} {outranks : α → α → Bool} {before after : List α} {a : α}
    (hbefore : InOrder outranks before) (hafter : InOrder outranks (a :: after))
    (hapart : ∀ b ∈ before, ∀ c ∈ after, outranks c b = false) :
    ∃ ahead passed, before = ahead ++ passed ∧
      rankBy outranks (before ++ a :: after) = ahead ++ a :: (passed ++ after) ∧
      ∀ b ∈ passed, outranks a b := by
  induction before with
  | nil => exact ⟨[], [], rfl, hafter.rankBy_eq, by simp⟩
  | cons b more ih =>
    obtain ⟨hb, hmore⟩ := inOrder_cons.mp hbefore
    obtain ⟨hbAfter, hmoreAfter⟩ := List.forall_mem_cons.mp hapart
    obtain ⟨ahead, passed, rfl, hrank, hpassed⟩ := ih hmore hmoreAfter
    have hplace : rankBy outranks (b :: (ahead ++ passed) ++ a :: after) =
        placeBy outranks b (ahead ++ a :: (passed ++ after)) := by
      rw [← hrank, List.cons_append, rankBy, List.foldr_cons, ← rankBy]
    rw [hplace]
    cases ahead with
    | nil =>
      by_cases hab : outranks a b
      · refine ⟨[], b :: passed, rfl, ?_, List.forall_mem_cons.mpr ⟨hab, hpassed⟩⟩
        rw [List.nil_append, placeBy, if_pos hab, placeBy_eq_cons]
        · rfl
        · intro c hc
          exact (List.mem_append.mp hc).elim (hb c) (hbAfter c)
      · refine ⟨[b], passed, rfl, ?_, hpassed⟩
        rw [List.nil_append, placeBy, if_neg hab]
        rfl
    | cons d ahead =>
      refine ⟨b :: d :: ahead, passed, rfl, ?_, hpassed⟩
      rw [List.cons_append, placeBy, hb d (by simp), if_neg Bool.false_ne_true]
      rfl

namespace Node

/-! ## The trie with an alias -/

theorem alter_append_cons {s : Segment} {f : List Node → List Node} {before : List Node}
    (h : s ∉ before.map label) (children after : List Node) :
    alter s f (before ++ mk s children :: after) = before ++ mk s (f children) :: after := by
  induction before with
  | nil => rw [List.nil_append, alter, if_pos rfl, List.nil_append]
  | cons n more ih =>
    obtain ⟨other, below⟩ := n
    rw [List.map_cons, List.mem_cons, not_or, label_mk] at h
    rw [List.cons_append, alter, if_neg (Ne.symm h.1), ih h.2, List.cons_append]

theorem alter_of_notMem {s : Segment} {f : List Node → List Node} {trees : List Node}
    (h : s ∉ trees.map label) : alter s f trees = trees ++ [mk s (f [])] := by
  induction trees with
  | nil => rfl
  | cons n more ih =>
    obtain ⟨other, below⟩ := n
    rw [List.map_cons, List.mem_cons, not_or, label_mk] at h
    rw [alter, if_neg (Ne.symm h.1), ih h.2, List.cons_append]

/-- An end is put behind all siblings. -/
theorem graft_finish {trees : List Node} (h : InOrder outranks trees) {name : Option Text}
    (hnew : .finish name ∉ trees.map label) :
    graft [.finish name] trees = trees ++ [mk (.finish name) []] := by
  have hend : ∀ n ∈ trees, ∀ e ∈ [mk (.finish name) []], e.outranks n = false := by
    intro n _ e he
    rw [List.mem_singleton.mp he]
    refine Standing.not_outranks_iff.mpr ⟨nofun, fun _ => ⟨Nat.zero_le _, fun _ => ?_⟩⟩
    exact Nat.zero_le _
  have hall : InOrder outranks (trees ++ [mk (.finish name) []]) :=
    List.pairwise_append.mpr ⟨h, List.pairwise_singleton _ _, hend⟩
  rw [graft, alter_of_notMem hnew]
  exact hall.rankBy_eq

/-! ## Descents -/

theorem take?_last_congr {n : Node} {last last' : Bool} (input : Text)
    (h : n.label.isSlot → last = last') : n.take? last input = n.take? last' input := by
  obtain ⟨s, children⟩ := n
  exact take?_congr (fun _ => rfl) rfl fun hs => ⟨h hs, rfl⟩

/-- No slot is the last of siblings among which there is an end. -/
theorem isLast_eq_false_of_finish {trees : List Node} (hproper : ProperForest trees)
    (h : InOrder outranks trees) {e : Node} (he : e ∈ trees) (hfinish : e.label.isFinish)
    {s : Segment} (hs : s.isSlot) : isLast trees s = false := by
  have hne : ∀ a : Node, a.label.isFinish → a.label ≠ s := by
    rintro a ha rfl
    rw [not_isFinish_of_isSlot hs] at ha
    cases ha
  cases hlast : trees.getLast? with
  | none => simp [isLast, hlast]
  | some a =>
    have ha : a.label.isFinish := by
      rcases h.eq_or_not_outranks_last hlast he with rfl | hout
      · exact hfinish
      · exact isFinish_of_not_outranks (hproper.proper a (List.mem_of_getLast? hlast))
          (hproper.proper e he) hfinish hout
    simp [isLast, hlast, hne a ha]

theorem take?_finish_nil {e : Node} (h : e.label.isFinish) (last : Bool) :
    (e.take? last []).isSome := by
  obtain ⟨s, children⟩ := e
  cases s with
  | finish name => rw [take?, if_pos rfl]; rfl
  | start | literal _ _ | slot _ | filled _ _ => cases h

/-- Behind an end that is there, one more is never taken. -/
theorem descend_concat_finish {trees : List Node} (hproper : ProperForest trees)
    (h : InOrder outranks trees) {e : Node} (he : e ∈ trees) (hfinish : e.label.isFinish)
    {name : Option Text} (hnew : .finish name ∉ trees.map label) (input : Text) :
    descend (trees ++ [mk (.finish name) []]) input = descend trees input := by
  have hdistinct : ((trees ++ [mk (.finish name) []]).map label).Nodup := by
    rw [List.map_append, List.nodup_append]
    refine ⟨hproper.distinct, List.nodup_singleton _, ?_⟩
    rintro s hs t ht rfl
    rw [List.mem_singleton.mp ht] at hs
    exact hnew hs
  have htake : ∀ n : Node, n.take? (isLast (trees ++ [mk (.finish name) []]) n.label) input =
      n.take? (isLast trees n.label) input := by
    refine fun n => take?_last_congr input fun hs => ?_
    rw [isLast_eq_false_of_finish hproper h he hfinish hs]
    have hne : .finish name ≠ n.label := by
      intro heq
      rw [← heq] at hs
      cases hs
    simp [isLast, hne]
  rw [descend_eq_findSome? hdistinct, descend_eq_findSome? hproper.distinct]
  simp only [htake, List.findSome?_append]
  refine congrArg (Option.getD · _) ?_
  by_cases hinput : input = []
  · refine Option.or_of_isSome ?_
    rw [List.findSome?_isSome_iff]
    exact ⟨e, he, by rw [hinput]; exact take?_finish_nil hfinish _⟩
  · rw [List.findSome?_cons, take?, if_neg hinput, List.findSome?_nil, Option.or_none]

/-- Literals do not look at what follows them. -/
theorem descend_append_of_literals {before : List Node} (h : ∀ n ∈ before, n.label.isLiteral)
    (more : List Node) (input : Text) :
    descend (before ++ more) input =
      (before.findSome? fun n => n.take? false input).getD (descend more input) := by
  induction before with
  | nil => rfl
  | cons n before ih =>
    obtain ⟨hn, hbefore⟩ := List.forall_mem_cons.mp h
    have hslot : n.label.isSlot → (before ++ more).isEmpty = false := fun hs =>
      absurd hs (Bool.eq_false_iff.mp (not_isSlot_of_isLiteral hn))
    rw [List.cons_append, descend, take?_last_congr input hslot, List.findSome?_cons]
    cases n.take? false input with
    | some d => rfl
    | none => exact ih hbefore

/-! ## The level of the literal -/

/-- A literal that stands before another one and has come to be outranked by it is a
plain literal of the same length. -/
theorem same_length_of_passed {text : Text} (htext : text ≠ []) {b : Node}
    {children children' : List Node}
    (hbehind : (mk (.literal .plain text) children).outranks b = false)
    (hahead : (mk (.literal .plain text) children').outranks b) :
    ∃ other, b.label = .literal .plain other ∧ Text.byteSize other = Text.byteSize text := by
  obtain ⟨hliteral, hless⟩ := Standing.not_outranks_iff.mp hbehind
  obtain ⟨hweight, _⟩ := hless (hliteral rfl).symm
  have hb : b.standing.label.isLiteral := hliteral rfl
  rcases Standing.outranks_iff.mp hahead with ⟨_, hnot⟩ | ⟨_, hmore⟩
  · rw [hb] at hnot
    cases hnot
  · have hsame : b.label.weight = Text.byteSize text := by
      change Text.byteSize text ≤ b.label.weight at hweight
      change b.label.weight < Text.byteSize text ∨ Text.byteSize text = b.label.weight ∧ _ at hmore
      omega
    have hne : b.label.weight ≠ 0 := fun hzero =>
      htext (Text.byteSize_eq_zero.mp (hsame.symm.trans hzero))
    obtain ⟨other, hother⟩ := exists_plain_of_weight_ne_zero hne
    exact ⟨other, hother, by rw [← hsame, hother]; rfl⟩

/-- What does not outrank a node does not outrank it with more ways on. -/
theorem not_outranks_of_length_le {c : Node} {s : Segment} {children children' : List Node}
    (h : c.outranks (mk s children) = false) (hle : children.length ≤ children'.length) :
    c.outranks (mk s children') = false := by
  obtain ⟨hliteral, hless⟩ := Standing.not_outranks_iff.mp h
  refine Standing.not_outranks_iff.mpr ⟨hliteral, fun heq => ?_⟩
  obtain ⟨hweight, hways⟩ := hless heq
  exact ⟨hweight, fun hsame => (hways hsame).trans hle⟩

/-- In front of an input there is one literal of a length. -/
theorem findSome?_take?_eq_none {siblings : List Node} {text rest : Text}
    (h : ∀ b ∈ siblings, ∃ other, b.label = .literal .plain other ∧
      Text.byteSize other = Text.byteSize text)
    (hnot : .literal .plain text ∉ siblings.map label) :
    (siblings.findSome? fun n => n.take? false (text ++ rest)) = none := by
  refine List.findSome?_eq_none_iff.mpr fun b hb => ?_
  obtain ⟨other, hlabel, hsize⟩ := h b hb
  by_contra htake
  obtain ⟨rest', hfront⟩ := prefix_of_take? hlabel (Option.isSome_iff_ne_none.mpr htake)
  rw [← eq_of_byteSize_eq hfront.symm hsize, ← hlabel] at hnot
  exact hnot (List.mem_map_of_mem hb)

theorem endsHere_concat {children : List Node} (h : children ≠ []) (e : Node) :
    endsHere (children ++ [e]) = false := by
  obtain ⟨c, more, rfl⟩ := List.exists_cons_of_ne_nil h
  cases more <;> simp [endsHere]

/-- A literal that is never passed over has moved ahead of literals of its length, and
descents below it go as before.  What is found differs only if it was passed over, and
then the descent goes below it and is stuck. -/
theorem descend_risen {passed children children' after : List Node} {text : Text}
    (hpassed : ∀ b ∈ passed, ∃ other, b.label = .literal .plain other ∧
      Text.byteSize other = Text.byteSize text)
    (hnot : .literal .plain text ∉ passed.map label) (hmany : endsHere children' = false)
    (hbelow : ∀ rest, descend children' rest = descend children rest) (input : Text) :
    descend (mk (.literal .plain text) children' :: (passed ++ after)) input =
      descend (passed ++ mk (.literal .plain text) children :: after) input ∨
    endsHere children ∧ (∃ rest, rest ≠ [] ∧ input = text ++ rest) ∧
      (descend (mk (.literal .plain text) children' :: (passed ++ after)) input).arrived =
        false := by
  have hliterals : ∀ b ∈ passed, b.label.isLiteral := by
    intro b hb
    obtain ⟨other, hlabel, _⟩ := hpassed b hb
    rw [hlabel]
    rfl
  rw [descend_append_of_literals hliterals, descend, descend, take?, take?]
  cases hfront : text.isPrefixOf? input with
  | none => exact .inl (descend_append_of_literals hliterals after input)
  | some rest =>
    obtain rfl := Text.isPrefixOf?_eq_some_iff.mp hfront
    rw [findSome?_take?_eq_none hpassed hnot, Option.getD_none]
    simp only [hmany, Bool.false_eq_true, false_and, if_false, hbelow]
    by_cases hguard : endsHere children ∧ rest ≠ []
    · obtain ⟨hends, hrest⟩ := hguard
      refine .inr ⟨hends, ⟨rest, hrest, rfl⟩, ?_⟩
      rw [descend_ends_of_ne_nil (isFinish_of_endsHere hends) hrest]
      rfl
    · rw [if_neg hguard]
      exact .inl rfl

section

variable {before children after : List Node} {text : Text} {name : Option Text}

/-- The literal gets a last end and moves ahead of some literals of its length. -/
theorem graft_alias_eq (htext : text ≠ [])
    (hranked : RankedForest (before ++ mk (.literal .plain text) children :: after))
    (hlabel : .literal .plain text ∉ before.map label)
    (hnew : .finish name ∉ children.map label) :
    ∃ ahead passed, before = ahead ++ passed ∧
      graft [.literal .plain text, .finish name]
          (before ++ mk (.literal .plain text) children :: after) =
        ahead ++ mk (.literal .plain text) (children ++ [mk (.finish name) []]) ::
          (passed ++ after) ∧
      ∀ b ∈ passed, ∃ other, b.label = .literal .plain other ∧
        Text.byteSize other = Text.byteSize text := by
  obtain ⟨hbefore, hafter, hapart⟩ := List.pairwise_append.mp hranked.inOrder
  obtain ⟨hfirst, hrest⟩ := inOrder_cons.mp hafter
  have hchildren : InOrder outranks children :=
    (hranked.ranked _ (List.mem_append_right _ List.mem_cons_self)).forest.inOrder
  have hrisen : InOrder outranks
      (mk (.literal .plain text) (children ++ [mk (.finish name) []]) :: after) := by
    refine inOrder_cons.mpr ⟨fun c hc => not_outranks_of_length_le (hfirst c hc) ?_, hrest⟩
    rw [List.length_append]
    exact Nat.le_add_right _ _
  obtain ⟨ahead, passed, hsplit, hrank, hpassed⟩ := exists_rankBy_eq hbefore hrisen
    fun b hb c hc => hapart b hb c (List.mem_cons_of_mem _ hc)
  refine ⟨ahead, passed, hsplit, ?_, fun b hb => ?_⟩
  · rw [graft, alter_append_cons hlabel, graft_finish hchildren hnew]
    exact hrank
  · have hb' : b ∈ before := by
      rw [hsplit]
      exact List.mem_append_right _ hb
    exact same_length_of_passed htext (hapart b hb' _ List.mem_cons_self) (hpassed b hb)

/-- The alias of a literal matters only to an input that goes on behind the literal,
and only where one end followed it.  The descent is stuck there then. -/
theorem descend_graft_alias (htext : text ≠ [])
    (hproper : ProperForest (before ++ mk (.literal .plain text) children :: after))
    (hranked : RankedForest (before ++ mk (.literal .plain text) children :: after))
    {e : Node} (he : e ∈ children) (hfinish : e.label.isFinish)
    (hnew : .finish name ∉ children.map label) (input : Text) :
    descend (graft [.literal .plain text, .finish name]
        (before ++ mk (.literal .plain text) children :: after)) input =
      descend (before ++ mk (.literal .plain text) children :: after) input ∨
    endsHere children ∧ (∃ rest, rest ≠ [] ∧ input = text ++ rest) ∧
      (descend (graft [.literal .plain text, .finish name]
        (before ++ mk (.literal .plain text) children :: after)) input).arrived = false := by
  have hmem : mk (.literal .plain text) children ∈
      before ++ mk (.literal .plain text) children :: after :=
    List.mem_append_right _ List.mem_cons_self
  have hdistinct := hproper.distinct
  rw [List.map_append, List.nodup_append] at hdistinct
  have hlabel : .literal .plain text ∉ before.map label := fun hin =>
    hdistinct.2.2 _ hin _ (by simp) rfl
  obtain ⟨ahead, passed, rfl, hgraft, hpassed⟩ := graft_alias_eq htext hranked hlabel hnew
  have hliterals : ∀ b ∈ ahead, b.label.isLiteral := fun b hb =>
    (Standing.not_outranks_iff.mp ((List.pairwise_append.mp hranked.inOrder).2.2 b
      (List.mem_append_left _ hb) _ List.mem_cons_self)).1 rfl
  have hbelow : ∀ rest, descend (children ++ [mk (.finish name) []]) rest =
      descend children rest := descend_concat_finish (hproper.proper _ hmem).forest
    (hranked.ranked _ hmem).forest.inOrder he hfinish hnew
  have hnot : .literal .plain text ∉ passed.map label := fun hin =>
    hlabel (by rw [List.map_append]; exact List.mem_append_right _ hin)
  have hmany := endsHere_concat (List.ne_nil_of_mem he) (mk (.finish name) [])
  rw [hgraft, List.append_assoc, descend_append_of_literals hliterals,
    descend_append_of_literals hliterals]
  cases ahead.findSome? fun n => n.take? false input with
  | some d => exact .inl rfl
  | none => exact descend_risen hpassed hnot hmany hbelow input

end

end Node

/-! ## Registering an alias -/

namespace Trie

open Node

theorem resolve?_eq_of_descend_eq {t t' : Trie} {input : Text}
    (h : t.descend input = t'.descend input) : t.resolve? input = t'.resolve? input := by
  rw [resolve?, resolve?, h]

theorem resolve?_eq_none {t : Trie} {input : Text} (h : (t.descend input).arrived = false) :
    t.resolve? input = none := by
  rw [resolve?, Descent.complete, h]
  rfl

section

variable {t : Trie} {rows : List (List Segment)} {text : Text} {name : Option Text}

/-- Where the row of a literal stands in the trie. -/
theorem Represents.exists_level (h : t.Represents rows)
    (hrow : [.start, .literal .plain text, .finish name] ∈ rows) :
    ∃ before children after,
      t.roots = [.mk .start (before ++ .mk (.literal .plain text) children :: after)] ∧
        ∃ e ∈ children, e.label = .finish name := by
  have hpath := (h.mem_paths _).mpr ⟨by simp, _, hrow, List.prefix_refl _⟩
  rcases h.root with hnil | ⟨siblings, hroot⟩
  · rw [hnil] at hpath
    cases hpath
  have hforest := h.forest
  rw [hroot] at hpath hforest
  have hstart := List.mem_singleton_self (Node.mk .start siblings)
  have hbelow := ((hforest.cons_mem_pathsOf hstart).mp hpath).resolve_left (by simp)
  obtain ⟨⟨_, children⟩, hn, rfl⟩ := List.mem_map.mp (label_mem_of_cons_mem_pathsOf hbelow)
  have hend := (((hforest.proper _ hstart).forest.cons_mem_pathsOf hn).mp hbelow).resolve_left
    (by simp)
  obtain ⟨e, he, heq⟩ := List.mem_map.mp (singleton_mem_pathsOf.mp hend)
  obtain ⟨before, after, rfl⟩ := List.append_of_mem hn
  exact ⟨before, children, after, hroot, e, he, heq⟩

/-- Where one end is all that follows a literal, one row goes through the literal. -/
theorem Represents.eq_of_children_eq (h : t.Represents rows) {before children after : List Node}
    (hroot : t.roots = [.mk .start (before ++ .mk (.literal .plain text) children :: after)])
    (hone : children.map label = [.finish name]) :
    ∀ row ∈ rows, [.start, .literal .plain text] <+: row →
      row = [.start, .literal .plain text, .finish name] := by
  rintro row hrow ⟨more, rfl⟩
  have hr := (h.isRow _ hrow).resolve_left (by simp)
  have hpath := (h.mem_paths _).mpr ⟨hr.ne_nil, _, hrow, List.prefix_refl _⟩
  have hmore : more ≠ [] := by
    rintro rfl
    cases ends_singleton.mp ((ends_cons (List.cons_ne_nil _ _)).mp hr.ends)
  have hforest := h.forest
  rw [hroot] at hpath hforest
  have hstart := List.mem_singleton_self
    (Node.mk .start (before ++ .mk (.literal .plain text) children :: after))
  have hmem : Node.mk (.literal .plain text) children ∈
      before ++ .mk (.literal .plain text) children :: after :=
    List.mem_append_right _ List.mem_cons_self
  have hbelow := ((hforest.cons_mem_pathsOf hstart).mp hpath).resolve_left (List.cons_ne_nil _ _)
  have hend := (((hforest.proper _ hstart).forest.cons_mem_pathsOf hmem).mp hbelow).resolve_left
    hmore
  obtain ⟨s, rest, rfl⟩ := List.exists_cons_of_ne_nil hmore
  have hs : s ∈ children.map label := label_mem_of_cons_mem_pathsOf hend
  rw [hone] at hs
  obtain rfl := List.mem_singleton.mp hs
  have hprefix : [.start, .literal .plain text, .finish name] <+:
      [.start, .literal .plain text] ++ .finish name :: rest := ⟨rest, rfl⟩
  exact (hr.eq_of_isPrefix hprefix ⟨.finish name, rfl, rfl⟩).symm

theorem graft_start_eq (path : List Segment) (siblings : List Node) :
    graft (.start :: path) [.mk .start siblings] = [.mk .start (graft path siblings)] := by
  rw [graft, alter, if_pos rfl]
  rfl

theorem text_ne_nil_of_isRow {role : LiteralRole} {more : List Segment}
    (h : IsRow (.start :: .literal role text :: more)) : text ≠ [] := by
  obtain ⟨row, hrow, htail, _⟩ := h
  obtain rfl := (List.cons.inj hrow).2
  exact (htail.inner _ List.mem_cons_self).2 text rfl

theorem Represents.descend_insert_alias (h : t.Represents rows) (hranked : RankedForest t.roots)
    {other : Option Text} (hrow : [.start, .literal .plain text, .finish other] ∈ rows)
    {renamed : Template} (hrenamed : renamed.row = [.start, .literal .plain text, .finish name])
    (input : Text) :
    (t.insert renamed).descend input = t.descend input ∨
      (∀ row ∈ rows, [.start, .literal .plain text] <+: row →
        row = [.start, .literal .plain text, .finish other]) ∧
      (∃ rest, rest ≠ [] ∧ input = text ++ rest) ∧
      ((t.insert renamed).descend input).arrived = false := by
  rw [Trie.descend, Trie.descend, Arena.roots_insert, hrenamed]
  split
  · exact .inl rfl
  rename_i hholds
  obtain ⟨before, children, after, hroot, e, he, hlabel⟩ := h.exists_level hrow
  have htext := text_ne_nil_of_isRow ((h.isRow _ hrow).resolve_left (by simp))
  have hforest := h.forest
  rw [hroot] at hholds hforest hranked
  have hstart := List.mem_singleton_self
    (Node.mk .start (before ++ .mk (.literal .plain text) children :: after))
  have hproper := (hforest.proper _ hstart).forest
  have hmem : Node.mk (.literal .plain text) children ∈
      before ++ .mk (.literal .plain text) children :: after :=
    List.mem_append_right _ List.mem_cons_self
  have hnew : .finish name ∉ children.map label := by
    intro hin
    refine hholds (hforest.holds_iff.mpr (.inr ?_))
    refine (hforest.cons_mem_pathsOf hstart).mpr (.inr ?_)
    exact (hproper.cons_mem_pathsOf hmem).mpr (.inr (singleton_mem_pathsOf.mpr hin))
  rw [hroot, graft_start_eq, descend_start, descend_start]
  rcases descend_graft_alias htext hproper (hranked.ranked _ hstart).forest he
    (by rw [hlabel]; rfl) hnew input with hsame | ⟨hends, hrest, hstuck⟩
  · rw [hsame]
    exact .inl rfl
  · obtain ⟨only, hone⟩ := endsHere_iff.mp hends
    have hother : Segment.finish other ∈ children.map label := hlabel ▸ List.mem_map_of_mem he
    rw [hone] at hother
    rw [← List.mem_singleton.mp hother] at hone
    exact .inr ⟨h.eq_of_children_eq hroot hone, hrest, hstuck⟩

end

end Trie

/-- An alias of a template of one literal changes what an input is resolved to for one
kind of input at most, and only if no other template went through the literal: an input
that goes on behind the literal is not resolved any more. -/
theorem Catalog.Registered.resolve_insert_alias {c : Catalog} {ts : List Template}
    (h : c.Registered ts) {text : Text} {name other : Option Text} {renamed : Template}
    (hrow : [.start, .literal .plain text, .finish name] ∈ ts.map Template.row)
    (hrenamed : renamed.row = [.start, .literal .plain text, .finish other]) (input : Text) :
    ((c.insert renamed).resolve input).1 = (c.resolve input).1 ∨
      (∀ t ∈ ts, [.start, .literal .plain text] <+: t.row →
        t.row = [.start, .literal .plain text, .finish name]) ∧
      (∃ rest, rest ≠ [] ∧ input = text ++ rest) ∧
      ((c.insert renamed).resolve input).1 = none := by
  rcases h.sound.represents.descend_insert_alias h.ranked hrow hrenamed input with
    hsame | ⟨honly, hrest, hstuck⟩
  · exact .inl (Trie.resolve?_eq_of_descend_eq hsame)
  · exact .inr ⟨fun t ht => honly t.row (List.mem_map_of_mem ht), hrest,
      Trie.resolve?_eq_none hstuck⟩

/-- A page, and a template that takes what no page takes. -/
def pageTemplates : List Template :=
  [.counted [.start, .literal .plain ['/'], .slot ['<', 'r', '>'], .finish (some ['t'])],
    .counted [.start, .literal .plain ['/', 'a'], .finish (some ['x'])]]

def renamedPage : Template := .counted [.start, .literal .plain ['/', 'a'], .finish (some ['y'])]

theorem row_mem_pageTemplates :
    [.start, .literal .plain ['/', 'a'], .finish (some ['x'])] ∈ pageTemplates.map Template.row := by
  decide

theorem registered_pageTemplates :
    (pageTemplates.foldl Catalog.insert (.new .braces .standard)).Registered pageTemplates :=
  Catalog.registered_foldl_ofSegments _ _ (by decide)

theorem Catalog.Registered.resolve_insert_alias_of_page :
    let c := pageTemplates.foldl Catalog.insert (.new .braces .standard)
    (c.resolve ['/', 'b', 'a']).1.isSome ∧
      ((c.insert renamedPage).resolve ['/', 'b', 'a']).1 = (c.resolve ['/', 'b', 'a']).1 := by
  intro c
  have hrow : renamedPage.row = [.start, .literal .plain ['/', 'a'], .finish (some ['y'])] := rfl
  refine ⟨by decide, ?_⟩
  rcases registered_pageTemplates.resolve_insert_alias row_mem_pageTemplates hrow ['/', 'b', 'a']
    with hsame | ⟨_, ⟨rest, _, hinput⟩, _⟩
  · exact hsame
  · simp at hinput

/-- With the alias, what begins like the page is not left to the other template. -/
theorem Catalog.Registered.not_resolve_insert_alias :
    ¬ ∀ (c : Catalog) (ts : List Template), c.Registered ts →
      ∀ (text : Text) (name other : Option Text) (renamed : Template), renamed.Obtainable →
        [.start, .literal .plain text, .finish name] ∈ ts.map Template.row →
        renamed.row = [.start, .literal .plain text, .finish other] →
          ∀ input, ((c.insert renamed).resolve input).1 = (c.resolve input).1 := by
  intro h
  have hof : Template.ofSegments renamedPage.segments = .ok renamedPage := rfl
  have hsame := h _ _ registered_pageTemplates _ _ _ renamedPage (.ofSegments hof)
    row_mem_pageTemplates rfl ['/', 'a', 'b']
  exact absurd hsame (by decide)

end RouteTemplates
