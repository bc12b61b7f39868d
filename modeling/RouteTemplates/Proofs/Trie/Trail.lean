import RouteTemplates.Proofs.Trie.Contents
import RouteTemplates.Proofs.Trie.Walk

/-!
# What a trail notes

A trail and the descent that takes the same ways are followed side by side.  While they
run, the position of the trail is the number of bytes that the descent has taken off the
input, so the position never leaves the input and never comes to lie inside a character.
Each step is put beside the segment that the descent takes, whether or not the way leads
to an end in the end.

`Follows` says this of a part of a descent, and what is true of trails is read off it by
induction: the nodes are children of each other, the steps cover the input without a gap,
and the labels are a path of the trie.  Only that a trail begins at a start needs
something of the trie, namely that it has no other root.

The walk over the cells of an arena mirrors the trail, so it resolves an input as the
descent does.
-/

namespace RouteTemplates
namespace Text

variable {t : Text} {n : Nat}

theorem dropBytes?_append (front rest : Text) :
    dropBytes? (byteSize front) (front ++ rest) = some rest := by
  rw [dropBytes?, takeBytes?_append, Option.map_some]

theorem slice?_append (front value rest : Text) :
    slice? (byteSize front) (byteSize front + byteSize value) (front ++ (value ++ rest)) =
      some value := by
  rw [slice?, if_pos (Nat.le_add_right _ _), dropBytes?_append, Option.bind_some,
    Nat.add_sub_cancel_left, takeBytes?_append, Option.map_some]

theorem HasBoundary.le_byteSize (h : t.HasBoundary n) : n ≤ byteSize t := by
  obtain ⟨front, rest, rfl, rfl⟩ := h
  rw [byteSize_append]
  exact Nat.le_add_right _ _

end Text

theorem Segment.matched_of_isFinish {s : Segment} (h : s.isFinish) : s.matched = [] := by
  cases s with
  | finish _ => rfl
  | start | literal _ _ | slot _ | filled _ _ => cases h

namespace Step

@[simp]
theorem reached_cons (s : Step Node) (steps : List (Step Node)) :
    reached (s :: steps) = s.width + reached steps := rfl

@[simp]
theorem reached_concat (steps : List (Step Node)) (s : Step Node) :
    reached (steps ++ [s]) = reached steps + s.width := by
  induction steps with
  | nil => exact Nat.add_comm _ _
  | cons first steps ih => rw [List.cons_append, reached_cons, ih, reached_cons, Nat.add_assoc]

/-- The step covers what lies between two positions. -/
def Covers (input : Text) (start stop : Nat) : Step Node → Prop
  | passed n => Text.slice? start stop input = some n.label.matched
  | captured _ first last => first = start ∧ last = stop

/-- From the position on, the step takes the segment from the input. -/
inductive Takes (input : Text) : (position : Nat) → Step Node → Segment → Prop
  | passed {n : Node} {front rest : Text} :
      n.label.isSlot = false → input = front ++ (n.label.matched ++ rest) →
        Takes input (Text.byteSize front) (.passed n) n.label
  | captured {slot : Node} {written front value rest : Text} :
      slot.label = .slot written → input = front ++ (value ++ rest) →
        Takes input (Text.byteSize front)
          (.captured slot (Text.byteSize front) (Text.byteSize front + Text.byteSize value))
          (.filled written value)

variable {input : Text} {position : Nat} {s : Step Node} {segment : Segment}

/-- An end takes nothing, behind all of the input. -/
theorem takes_finish {n : Node} (h : n.label.isFinish) :
    Takes input (Text.byteSize input) (.passed n) n.label := by
  have hmatched : n.label.matched = [] := Segment.matched_of_isFinish h
  have hopen : n.label.isSlot = false := by
    rw [Bool.eq_false_iff]
    intro hslot
    rw [Segment.not_isFinish_of_isSlot hslot] at h
    cases h
  have hend : input = input ++ (n.label.matched ++ []) := by simp [hmatched]
  exact .passed hopen hend

theorem Takes.segment?_eq (h : Takes input position s segment) :
    s.segment? input = some segment := by
  cases h with
  | passed _ _ => rfl
  | captured hslot hinput => simp only [segment?, readBack?, hslot, hinput, Text.slice?_append]

theorem Takes.label_eq (h : Takes input position s segment) :
    s.node.label = segment.unfilled := by
  cases h with
  | @passed n _ _ hopen _ =>
    show n.label = n.label.unfilled
    cases hlabel : n.label with
    | filled _ _ => simp [hlabel, Segment.isSlot, Segment.slotName?] at hopen
    | start | finish _ | literal _ _ | slot _ => rfl
  | captured hslot _ => exact hslot

theorem Takes.exists_passed (h : Takes input position s segment)
    (hopen : s.node.label.isSlot = false) : ∃ n, s = .passed n := by
  cases h with
  | @passed n _ _ _ _ => exact ⟨n, rfl⟩
  | @captured slot _ _ _ _ hslot _ =>
    have hlabel : slot.label.isSlot = false := hopen
    rw [hslot] at hlabel
    cases hlabel

theorem Takes.covers (h : Takes input position s segment) :
    s.Covers input position (position + s.width) := by
  cases h with
  | passed _ hinput =>
    show Text.slice? _ _ input = _
    rw [hinput]
    exact Text.slice?_append _ _ _
  | captured _ _ => exact ⟨rfl, by simp [width]⟩

theorem Takes.hasBoundary (h : Takes input position s segment) :
    input.HasBoundary position ∧ input.HasBoundary (position + s.width) := by
  cases h with
  | @passed n front rest _ hinput =>
    refine ⟨⟨front, _, hinput, rfl⟩, ⟨front ++ n.label.matched, rest, by simp [hinput], ?_⟩⟩
    rw [Text.byteSize_append]
    rfl
  | @captured _ _ front value rest _ hinput =>
    refine ⟨⟨front, _, hinput, rfl⟩, ⟨front ++ value, rest, by simp [hinput], ?_⟩⟩
    rw [Text.byteSize_append, width, Nat.add_sub_cancel_left]

end Step

namespace Node

/-- From the position on, the trail notes what the descent takes. -/
inductive Follows (input : Text) : List Node → (position : Nat) → Trail Node → Descent → Prop
  | stuck {trees : List Node} {position : Nat} : Follows input trees position .stuck .stuck
  | arrival {trees : List Node} {n : Node} :
      n ∈ trees → n.label.isFinish → Follows input trees (Text.byteSize input) (.arrival n)
        (.arrival n.label)
  | step {trees : List Node} {position : Nat} {s : Step Node} {segment : Segment} {t : Trail Node}
      {d : Descent} :
      s.node ∈ trees → s.node.label.isFinish = false → s.Takes input position segment →
        Follows input s.node.children (position + s.width) t d →
          Follows input trees position (t.cons s) (d.cons segment)

/-- The same behind a slot, whose value the trail knows by its width. -/
structure FollowsValue (input : Text) (trees : List Node) (position : Nat) (rest : Text)
    (found : Nat × Trail Node) (bound : Text × Descent) : Prop where
  width_eq : found.1 = Text.byteSize bound.1
  isPrefix : bound.1 <+: rest
  follows : Follows input trees (position + Text.byteSize bound.1) found.2 bound.2

variable {input : Text} {trees level : List Node} {position : Nat} {t : Trail Node} {d : Descent}

theorem Follows.mono (h : Follows input trees position t d) (hsub : trees ⊆ level) :
    Follows input level position t d := by
  cases h with
  | stuck => exact .stuck
  | arrival hn hfinish => exact .arrival (hsub hn) hfinish
  | step hs hfinish htakes hbelow => exact .step (hsub hs) hfinish htakes hbelow

theorem FollowsValue.mono {rest : Text} {found : Nat × Trail Node} {bound : Text × Descent}
    (h : FollowsValue input trees position rest found bound) (hsub : trees ⊆ level) :
    FollowsValue input level position rest found bound :=
  ⟨h.width_eq, h.isPrefix, h.follows.mono hsub⟩

/-! ## A trail follows its descent -/

/-- The three tests of a literal look at the rest of the input. -/
theorem enter?_literal {front rest text : Text} (hinput : input = front ++ rest)
    (role : LiteralRole) (children : List Node) (last : Bool) :
    (mk (.literal role text) children).enter? input last (Text.byteSize front) =
      match text.isPrefixOf? rest with
      | some after =>
        if endsHere children ∧ after ≠ [] then none
        else some ((trail input children (Text.byteSize front + Text.byteSize text)).cons
          (.passed (mk (.literal role text) children)))
      | none => none := by
  rw [enter?, hinput, Text.dropBytes?_append, Option.any_some, ← hinput]
  cases hfront : text.isPrefixOf? rest with
  | none =>
    have hno : text.isPrefixOf rest = false := by
      rw [Bool.eq_false_iff, ne_eq, List.isPrefixOf_iff_prefix]
      exact Text.isPrefixOf?_eq_none_iff.mp hfront
    rw [hno]
    dsimp only
    split
    · rfl
    · split <;> rfl
  | some after =>
    obtain rfl := Text.isPrefixOf?_eq_some_iff.mp hfront
    have hyes : text.isPrefixOf (text ++ after) :=
      List.isPrefixOf_iff_prefix.mpr (List.prefix_append text after)
    have hsize : Text.byteSize input =
        Text.byteSize front + Text.byteSize text + Text.byteSize after := by
      rw [hinput, Text.byteSize_append, Text.byteSize_append, Nat.add_assoc]
    have hwithin : ¬ Text.byteSize input < Text.byteSize front + Text.byteSize text := by omega
    have hall : Text.byteSize front + Text.byteSize text ≠ Text.byteSize input ↔
        after ≠ [] := by
      rw [hsize, ne_eq, ne_eq, ← Text.byteSize_eq_zero]
      omega
    dsimp only
    rw [if_neg hwithin, if_pos hyes]
    simp only [hall]

mutual

/-- The position of the trail is where the rest of the descent begins. -/
theorem follows_trail {input : Text} : ∀ (trees : List Node) {front rest : Text},
    input = front ++ rest →
      Follows input trees (Text.byteSize front) (trail input trees (Text.byteSize front))
        (descend trees rest)
  | [], _, _, _ => by
    rw [trail, descend]
    exact .stuck
  | n :: more, front, rest, hinput => by
    have hn := rel_enter? n more.isEmpty hinput
    have hmore := follows_trail more hinput
    rw [trail, descend]
    generalize n.enter? input more.isEmpty (Text.byteSize front) = entered at hn ⊢
    generalize n.take? more.isEmpty rest = taken at hn ⊢
    cases hn with
    | some h => exact h.mono (by simp)
    | none => exact hmore.mono (List.subset_cons_self n more)

theorem rel_enter? {input : Text} : ∀ (n : Node) (last : Bool) {front rest : Text},
    input = front ++ rest →
      Option.Rel (Follows input [n] (Text.byteSize front))
        (n.enter? input last (Text.byteSize front)) (n.take? last rest)
  | mk .start children, _, front, rest, hinput => by
    have hn : mk .start children ∈ [mk .start children] := List.mem_singleton_self _
    have htakes : Step.Takes input (Text.byteSize front) (.passed (mk .start children)) .start :=
      .passed rfl hinput
    exact .some (.step hn rfl htakes (follows_trail children hinput))
  | mk (.finish name) children, _, front, rest, hinput => by
    have hiff : Text.byteSize front = Text.byteSize input ↔ rest = [] := by
      rw [hinput, Text.byteSize_append, ← Text.byteSize_eq_zero]
      omega
    rw [enter?, take?]
    by_cases hrest : rest = []
    · have hend := hiff.mpr hrest
      rw [if_pos hend, if_pos hrest, hend]
      exact .some (.arrival (List.mem_singleton_self _) rfl)
    · rw [if_neg (mt hiff.mp hrest), if_neg hrest]
      exact .none
  | mk (.literal role text) children, _, front, rest, hinput => by
    rw [enter?_literal hinput, take?]
    cases hfront : text.isPrefixOf? rest with
    | none => exact .none
    | some after =>
      obtain rfl := Text.isPrefixOf?_eq_some_iff.mp hfront
      dsimp only
      by_cases hleft : endsHere children ∧ after ≠ []
      · rw [if_pos hleft, if_pos hleft]
        exact .none
      · have hsplit : input = (front ++ text) ++ after := by simp [hinput]
        have hbelow := follows_trail children hsplit
        rw [Text.byteSize_append] at hbelow
        rw [if_neg hleft, if_neg hleft]
        exact .some (.step (List.mem_singleton_self _) rfl (.passed rfl hinput) hbelow)
  | mk (.slot written) children, last, front, rest, hinput => by
    have hbounded := rel_enterBounding? children hinput
    rw [enter?, take?]
    generalize enterBounding? input children (Text.byteSize front) = found at hbounded ⊢
    generalize boundedBy? children rest = bound at hbounded ⊢
    cases hbounded with
    | none => exact .none
    | @some found bound h =>
      obtain ⟨width, t⟩ := found
      obtain ⟨value, d⟩ := bound
      obtain ⟨hwidth, ⟨after, hafter⟩, hbelow⟩ := h
      dsimp only at hwidth hafter hbelow
      subst hwidth hafter
      simp only [Text.byteSize_eq_zero]
      by_cases hempty : value = [] ∧ !last
      · rw [if_pos hempty, if_pos hempty]
        exact .none
      · rw [if_neg hempty, if_neg hempty]
        refine .some (.step (List.mem_singleton_self _) rfl (.captured rfl hinput) ?_)
        rwa [Step.width, Nat.add_sub_cancel_left]
  | mk (.filled _ _) children, _, _, _, _ => by
    rw [enter?, take?]
    exact .none

theorem rel_enterBounding? {input : Text} : ∀ (trees : List Node) {front rest : Text},
    input = front ++ rest →
      Option.Rel (FollowsValue input trees (Text.byteSize front) rest)
        (enterBounding? input trees (Text.byteSize front)) (boundedBy? trees rest)
  | [], _, _, _ => by
    rw [enterBounding?, boundedBy?]
    exact .none
  | n :: more, front, rest, hinput => by
    have hn := rel_enterAhead? n hinput
    have hmore := rel_enterBounding? more hinput
    rw [enterBounding?, boundedBy?]
    generalize n.enterAhead? input (Text.byteSize front) = found at hn ⊢
    generalize n.bound? rest = bound at hn ⊢
    cases hn with
    | some h => exact .some (h.mono (by simp))
    | none =>
      dsimp only
      generalize enterBounding? input more (Text.byteSize front) = found at hmore ⊢
      generalize boundedBy? more rest = bound at hmore ⊢
      cases hmore with
      | some h => exact .some (h.mono (List.subset_cons_self n more))
      | none => exact .none

theorem rel_enterAhead? {input : Text} : ∀ (n : Node) {front rest : Text},
    input = front ++ rest →
      Option.Rel (FollowsValue input [n] (Text.byteSize front) rest)
        (n.enterAhead? input (Text.byteSize front)) (n.bound? rest)
  | mk (.literal role mark) children, front, rest, hinput => by
    rw [enterAhead?, bound?, hinput, Text.dropBytes?_append, Option.bind_some, ← hinput,
      Text.find?]
    cases hcut : Text.cutAt? mark rest with
    | none => exact .none
    | some found =>
      obtain ⟨value, after⟩ := found
      obtain ⟨rfl, _⟩ := Text.cutAt?_eq_some_iff.mp hcut
      have hmark : input = (front ++ value) ++ (mark ++ after) := by simp [hinput]
      have hsplit : input = ((front ++ value) ++ mark) ++ after := by simp [hinput]
      have htakes : Step.Takes input (Text.byteSize (front ++ value))
          (.passed (mk (.literal role mark) children)) (.literal role mark) := .passed rfl hmark
      have hbelow := follows_trail children hsplit
      rw [Text.byteSize_append] at htakes
      rw [Text.byteSize_append, Text.byteSize_append] at hbelow
      refine .some ⟨rfl, ⟨mark ++ after, by simp⟩, ?_⟩
      exact .step (List.mem_singleton_self _) rfl htakes hbelow
  | mk (.finish name) children, front, rest, hinput => by
    rw [enterAhead?, bound?, hinput, Text.dropBytes?_append, Option.map_some, ← hinput]
    refine .some ⟨rfl, List.prefix_refl rest, ?_⟩
    rw [← Text.byteSize_append, ← hinput]
    exact .arrival (List.mem_singleton_self _) rfl
  | mk .start _, _, _, _ => by
    rw [enterAhead?, bound?]
    exact .none
  | mk (.slot _) _, _, _, _ => by
    rw [enterAhead?, bound?]
    exact .none
  | mk (.filled _ _) _, _, _, _ => by
    rw [enterAhead?, bound?]
    exact .none

end

/-! ## What is read off -/

theorem Follows.map_segment? (h : Follows input trees position t d) :
    t.steps.map (Step.segment? input) = d.taken.map some := by
  induction h with
  | stuck => rfl
  | arrival _ _ => rfl
  | @step _ _ s segment t d _ _ htakes _ ih =>
    show s.segment? input :: t.steps.map (Step.segment? input) = some segment :: d.taken.map some
    rw [htakes.segment?_eq, ih]

theorem Follows.arrived_eq (h : Follows input trees position t d) : t.arrived = d.arrived := by
  induction h with
  | stuck => rfl
  | arrival _ _ => rfl
  | step _ _ _ _ ih => exact ih

theorem Follows.leads (h : Follows input trees position t d) : t.Leads children trees := by
  induction h with
  | stuck => exact Trail.leads_stuck
  | arrival hn _ => exact Trail.leads_arrival hn
  | step hs _ _ _ ih => exact ih.cons hs

/-- Each step begins where the steps before it end. -/
theorem Follows.exists_takes (h : Follows input trees position t d) {before after : List (Step Node)}
    {s : Step Node} (hsplit : t.steps = before ++ s :: after) :
    ∃ segment, s.Takes input (position + Step.reached before) segment := by
  induction h generalizing before with
  | stuck => simp [Trail.stuck] at hsplit
  | @arrival _ n _ hfinish =>
    cases before with
    | nil =>
      obtain ⟨rfl, _⟩ := List.cons.inj hsplit
      exact ⟨n.label, Step.takes_finish hfinish⟩
    | cons other before => simp [Trail.arrival] at hsplit
  | @step _ position first segment t d _ _ htakes _ ih =>
    cases before with
    | nil =>
      obtain ⟨rfl, _⟩ := List.cons.inj hsplit
      exact ⟨segment, htakes⟩
    | cons other before =>
      obtain ⟨rfl, hmore⟩ := List.cons.inj hsplit
      rw [Step.reached_cons, ← Nat.add_assoc]
      exact ih hmore

/-- Only the last step of a descent that arrives is an end. -/
theorem Follows.arrived_iff (h : Follows input trees position t d) :
    t.arrived ↔ ∃ n, t.steps.getLast? = some (.passed n) ∧ n.label.isFinish := by
  induction h with
  | stuck => simp [Trail.stuck]
  | arrival _ hfinish => simpa [Trail.arrival] using hfinish
  | @step _ _ s _ t _ _ hopen _ _ ih =>
    show t.arrived ↔ ∃ n, (s :: t.steps).getLast? = some (.passed n) ∧ n.label.isFinish
    rw [ih]
    cases hsteps : t.steps with
    | cons next more => rw [List.getLast?_cons_cons]
    | nil =>
      refine iff_of_false (by simp) ?_
      rintro ⟨n, hlast, hfinish⟩
      obtain rfl : s = .passed n := Option.some.inj hlast
      rw [show (Step.passed n).node = n from rfl, hfinish] at hopen
      cases hopen

theorem Follows.reached_eq (h : Follows input trees position t d) (ha : t.arrived) :
    position + Step.reached t.steps = Text.byteSize input := by
  induction h with
  | stuck => cases ha
  | @arrival _ n _ hfinish =>
    show Text.byteSize input + (Text.byteSize n.label.matched + 0) = Text.byteSize input
    rw [Segment.matched_of_isFinish hfinish]
    rfl
  | @step _ position s _ t _ _ _ _ _ ih =>
    show position + (s.width + Step.reached t.steps) = Text.byteSize input
    rw [← Nat.add_assoc]
    exact ih ha

/-- What is taken, also on a way that leads nowhere, is a path with its slots filled. -/
theorem Follows.unfilled_mem_pathsOf (h : Follows input trees position t d) :
    d.taken = [] ∨ d.taken.map Segment.unfilled ∈ pathsOf trees := by
  induction h with
  | stuck => exact .inl rfl
  | @arrival _ n hn hfinish =>
    have htakes : (Step.passed n).Takes input _ n.label := Step.takes_finish hfinish
    exact .inr (mem_pathsOf.mpr ⟨n, hn, .inl (congrArg ([·]) htakes.label_eq.symm)⟩)
  | @step _ _ s segment _ d hs _ htakes _ ih =>
    refine .inr (mem_pathsOf.mpr ⟨s.node, hs, ?_⟩)
    show segment.unfilled :: d.taken.map Segment.unfilled = _ ∨ _
    rw [htakes.label_eq]
    rcases ih with hnil | hbelow
    · exact .inl (by rw [hnil]; rfl)
    · exact .inr ⟨_, hbelow, rfl⟩

end Node

/-! ## The trail of an input -/

namespace Trie

theorem follows_trail (t : Trie) (input : Text) :
    Node.Follows input t.roots 0 (t.trail input) (t.descend input) := by
  have hinput : input = [] ++ input := rfl
  exact Node.follows_trail t.roots hinput

/-- The steps that were pushed are the segments that were taken, one for one. -/
theorem length_steps_trail (t : Trie) (input : Text) :
    (t.trail input).steps.length = (t.descend input).taken.length := by
  have hsegments := congrArg List.length (t.follows_trail input).map_segment?
  simpa using hsegments

/-- Where the start is the only root, no other step comes first. -/
theorem Represents.first_start {t : Trie} {rows : List (List Segment)} (h : t.Represents rows)
    {input : Text} (hsteps : (t.trail input).steps ≠ []) :
    ∃ n, (t.trail input).steps.head? = some (.passed n) ∧ n.label = .start := by
  obtain ⟨s, more, heq⟩ := List.exists_cons_of_ne_nil hsteps
  have hroot : s.node ∈ t.roots := (t.follows_trail input).leads.first_mem s (by rw [heq]; rfl)
  have hlabel : s.node.label = .start := by
    rcases h.root with hnil | ⟨children, hone⟩
    · rw [hnil] at hroot
      cases hroot
    · rw [hone, List.mem_singleton] at hroot
      rw [hroot]
      rfl
  have hfirst : (t.trail input).steps = [] ++ s :: more := heq
  obtain ⟨segment, htakes⟩ := (t.follows_trail input).exists_takes hfirst
  obtain ⟨n, rfl⟩ := htakes.exists_passed (by rw [hlabel]; rfl)
  exact ⟨n, by rw [heq]; rfl, hlabel⟩

end Trie

/-! ## The walk over cells -/

namespace Arena

variable {a : Arena} {input : Text} {w : Trail Nat} {d : Descent}

/-- A step that was passed is read back as its label, and one with a value as a filled slot. -/
theorem passed?_of_readBack? {s : Step Nat} {segment : Segment}
    (h : s.readBack? a.label? input = some segment) :
    a.passed? s = some segment ∨ a.passed? s = none ∧ segment.isFilled := by
  cases s with
  | passed i => exact .inl h
  | captured slot start stop =>
    rw [Step.readBack?] at h
    split at h
    · obtain rfl := Option.some.inj h
      exact .inr ⟨rfl, rfl⟩
    · cases h

theorem bind_passed? {s? : Option (Step Nat)} {segment? : Option Segment}
    (h : s?.map (Step.readBack? a.label? input) = segment?.map some) :
    (s?.bind a.passed? == some .start) = (segment? == some .start) ∧
      (s?.bind a.passed?).any Segment.isFinish = segment?.any Segment.isFinish := by
  cases s? with
  | none =>
    cases segment? with
    | none => exact ⟨rfl, rfl⟩
    | some segment => cases h
  | some s =>
    cases segment? with
    | none => cases h
    | some segment =>
      rw [Option.bind_some]
      rcases passed?_of_readBack? (Option.some.inj h) with hpassed | ⟨hpassed, hfilled⟩
      · rw [hpassed]
        exact ⟨rfl, rfl⟩
      · rw [hpassed]
        cases segment with
        | filled _ _ => exact ⟨rfl, rfl⟩
        | start | finish _ | literal _ _ | slot _ => cases hfilled

theorem complete_eq (hsteps : w.steps.map (Step.readBack? a.label? input) = d.taken.map some)
    (harrived : w.arrived = d.arrived) : a.complete w = d.complete := by
  have hfirst : w.steps.head?.map (Step.readBack? a.label? input) = d.taken.head?.map some := by
    rw [← List.head?_map, hsteps, List.head?_map]
  have hlast : w.steps.getLast?.map (Step.readBack? a.label? input) =
      d.taken.getLast?.map some := by
    rw [← List.getLast?_map, hsteps, List.getLast?_map]
  rw [complete, Descent.complete, harrived, (bind_passed? hfirst).1, (bind_passed? hlast).2]

/-- An arena resolves an input as the trie does that it holds. -/
theorem Holds.resolve?_eq {t : Trie} (h : a.Holds t.roots) (input : Text) :
    a.resolve? input = t.resolve? input := by
  have hmirrors : Mirrors a a.roots (a.walk input) (t.trail input) := h.mirrors_walk input
  have hfollows := t.follows_trail input
  have hsteps : (a.walk input).steps.map (Step.readBack? a.label? input) =
      (t.descend input).taken.map some :=
    (hmirrors.map_readBack? input).trans hfollows.map_segment?
  have hcomplete : a.complete (a.walk input) = (t.descend input).complete :=
    complete_eq hsteps (hmirrors.arrived_eq.trans hfollows.arrived_eq)
  have hsegments : (a.walk input).steps.mapM (Step.readBack? a.label? input) =
      some (t.descend input).taken :=
    calc (a.walk input).steps.mapM (Step.readBack? a.label? input)
        = ((a.walk input).steps.map (Step.readBack? a.label? input)).mapM id := by
          rw [List.mapM_map, Function.id_comp]
      _ = (t.descend input).taken.mapM some := by rw [hsteps, List.mapM_map, Function.id_comp]
      _ = some ((t.descend input).taken.map id) := List.mapM_pure
      _ = some (t.descend input).taken := by rw [List.map_id]
  rw [resolve?, Trie.resolve?, hcomplete, hsegments, Option.map_some]

end Arena

theorem Catalog.Registered.arena_resolve? {c : Catalog} {ts : List Template}
    (h : c.Registered ts) (input : Text) :
    (Arena.ofTemplates ts).resolve? input = (c.resolve input).1 :=
  h.arena_holds.resolve?_eq input

/-- In every catalog and for every input, whether or not it is resolved:

* the steps, read back against the input, are the segments the descent takes, so no slice is
  taken that is not there;
* the first node is a root, and each other one is a child of the one before it;
* each step begins where the one before it ends, the first at the front, and covers just
  what it takes; both positions lie within the input and between characters;
* the trail arrives exactly if its last step is an end, and then the steps cover the whole
  input and the first is a start;
* the walk over the cells of an arena with the same templates notes the steps by their
  places, with the same labels and positions, and each place is listed by the one before. -/
theorem Catalog.Registered.trail_contiguous {c : Catalog} {ts : List Template}
    (h : c.Registered ts) (input : Text) :
    let t := c.trie.trail input
    let d := c.trie.descend input
    let a := Arena.ofTemplates ts
    let w := a.walk input
    (t.steps.map (Step.segment? input) = d.taken.map some ∧ t.arrived = d.arrived) ∧
      (∀ s ∈ t.steps.head?, s.node ∈ c.trie.roots) ∧
      t.steps.IsChain (fun s next => next.node ∈ s.node.children) ∧
      (∀ before s after, t.steps = before ++ s :: after →
        let start := Step.reached before
        let stop := Step.reached (before ++ [s])
        s.Covers input start stop ∧ start ≤ stop ∧ stop ≤ Text.byteSize input ∧
          input.HasBoundary start ∧ input.HasBoundary stop) ∧
      (t.arrived ↔ ∃ n, t.steps.getLast? = some (.passed n) ∧ n.label.isFinish) ∧
      (t.arrived → Step.reached t.steps = Text.byteSize input ∧
        ∃ n, t.steps.head? = some (.passed n) ∧ n.label = .start) ∧
      (w.steps.map (Step.map a.label?) = t.steps.map (Step.map (some ·.label)) ∧
        w.arrived = t.arrived ∧
        (∀ s ∈ w.steps.head?, s.node ∈ a.roots) ∧
        w.steps.IsChain fun s next => next.node ∈ a.level (some s.node)) := by
  intro t d a w
  have hfollows : Node.Follows input c.trie.roots 0 t d := c.trie.follows_trail input
  have hmirrors : a.Mirrors a.roots w t := h.arena_holds.mirrors_walk input
  refine ⟨⟨hfollows.map_segment?, hfollows.arrived_eq⟩, hfollows.leads.first_mem,
    hfollows.leads.isChain, fun before s after hsplit => ?_, hfollows.arrived_iff,
    fun ha => ⟨?_, ?_⟩, hmirrors.map_steps, hmirrors.arrived_eq, hmirrors.leads.first_mem,
    hmirrors.leads.isChain⟩
  · obtain ⟨segment, htakes⟩ := hfollows.exists_takes hsplit
    rw [Nat.zero_add] at htakes
    obtain ⟨hstart, hstop⟩ := htakes.hasBoundary
    dsimp only
    rw [Step.reached_concat]
    exact ⟨htakes.covers, Nat.le_add_right _ _, hstop.le_byteSize, hstart, hstop⟩
  · rw [← hfollows.reached_eq ha, Nat.zero_add]
  · obtain ⟨n, hlast, _⟩ := hfollows.arrived_iff.mp ha
    refine h.sound.represents.first_start fun hnil => ?_
    rw [hnil] at hlast
    cases hlast

/-- A value and a mark of two bytes each.  With one character more the trail ends behind the
mark and has not arrived. -/
theorem Catalog.Registered.trail_contiguous_of_accents :
    let page : Template := .counted
      [.start, .literal .plain ['/'], .slot ['<', 'u', '>'], .literal .plain ['é'], .finish none]
    let c := [page].foldl Catalog.insert (.new .braces .standard)
    let a := Arena.ofTemplates [page]
    let t := c.trie.trail ['/', 'ü', 'é']
    let walked := a.walk ['/', 'ü', 'é']
    let short := c.trie.trail ['/', 'ü', 'é', '!']
    c.Registered [page] ∧
      t.arrived ∧ t.steps.map Step.width = [0, 1, 2, 2, 0] ∧ Step.reached t.steps = 5 ∧
      short.arrived = false ∧ short.steps.map Step.width = [0, 1, 2, 2] ∧
      (∀ s ∈ short.steps.head?, s.node ∈ c.trie.roots) ∧
      walked.steps = [.passed 0, .passed 1, .captured 2 1 3, .passed 3, .passed 4] ∧
      walked.steps.IsChain fun s next => next.node ∈ a.level (some s.node) := by
  intro page c a t walked short
  have hregistered : c.Registered [page] := Catalog.registered_foldl_ofSegments _ _ (by decide)
  have ha : t.arrived := rfl
  obtain ⟨_, _, _, _, _, hcomplete, _, _, _, hchain⟩ :=
    hregistered.trail_contiguous ['/', 'ü', 'é']
  obtain ⟨_, hroot, _⟩ := hregistered.trail_contiguous ['/', 'ü', 'é', '!']
  exact ⟨hregistered, ha, by decide, (hcomplete ha).1, by decide, by decide, hroot,
    by decide, hchain⟩

end RouteTemplates
