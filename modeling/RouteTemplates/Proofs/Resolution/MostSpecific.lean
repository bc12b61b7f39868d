import RouteTemplates.Proofs.Trie.Descent
import RouteTemplates.Proofs.Trie.Priority

/-!
# The most specific literal

Which way a descent goes is said here of the registered rows, without a trie.  Behind
what has been matched some segments can follow, those that follow it in a row.  Of the
literals among them that can be matched there, the longest plain one is chosen, and a
separator only where no plain literal can be; a slot or an end comes last.

Two things can be asked of a literal.  Behind a slot the literal bounds the slot's
value, so it has to occur somewhere in what is left.  Elsewhere it has to stand in
front, and a literal behind which every row ends has to be all that is left.
-/

namespace RouteTemplates

namespace Segment

section

variable (rows : List (List Segment)) (path : List Segment)

/-- The number of ways on behind the segment. -/
def waysOn (s : Segment) : Nat := (continuations rows (path ++ [s])).length

/-- A literal that can follow the path and can be taken from the front of the input. -/
def Takeable (input : Text) (s : Segment) : Prop :=
  s ∈ continuations rows path ∧ ∃ text rest, s.literal? = some text ∧ input = text ++ rest ∧
    ((∃ name, continuations rows (path ++ [s]) = [.finish name]) → rest = [])

/-- A literal that can follow the path and occurs in the input. -/
def Occurs (input : Text) (s : Segment) : Prop :=
  s ∈ continuations rows path ∧ ∃ text, s.literal? = some text ∧ text <:+: input

/-- Behind the path, no literal that is possible is more specific than `s`, and `s` is a
literal that is possible if there is one. -/
structure MostSpecific (possible : Segment → Prop) (s : Segment) : Prop where
  possible_of_isLiteral : s.isLiteral → possible s
  plain : ∀ text, possible (.literal .plain text) → ∃ longest, s = .literal .plain longest ∧
    Text.byteSize text ≤ Text.byteSize longest ∧
    (Text.byteSize text = Text.byteSize longest →
      waysOn rows path (.literal .plain text) ≤ waysOn rows path s)
  separator : (∀ text, ¬ possible (.literal .plain text)) →
    ∀ text, possible (.literal .separator text) → ∃ mark, s = .literal .separator mark ∧
      waysOn rows path (.literal .separator text) ≤ waysOn rows path s

/-- How `s` is chosen behind `prev`, the last segment of the path, with `rest` left of
the input.  A slot has been filled already, up to the literal that is chosen now, and
one that is filled with nothing has been chosen where no row ends. -/
structure ChosenBehind (prev : Segment) (rest : Text) (s : Segment) : Prop where
  taken : prev.isSlot = false → MostSpecific rows path (Takeable rows path rest) s.unfilled
  bounding : prev.isSlot →
    MostSpecific rows path (Occurs rows path (prev.matched ++ rest)) s.unfilled
  bounded : prev.isSlot → ∀ mark ∈ s.literal?, Text.FirstAfter mark prev.matched
  not_ends_of_empty : s.isSlot → s.matched = [] → ∀ name, .finish name ∉ continuations rows path

/-- Each segment of the row, put behind the path, is chosen behind the one before it. -/
def Chosen : List Segment → List Segment → Prop
  | path, prev :: s :: more =>
    ChosenBehind rows (path ++ [prev.unfilled]) prev ((s :: more).flatMap matched) s ∧
      Chosen (path ++ [prev.unfilled]) (s :: more)
  | _, _ => True

end

variable {rows : List (List Segment)} {path : List Segment} {input : Text}

theorem Takeable.isLiteral {s : Segment} (h : Takeable rows path input s) : s.isLiteral := by
  obtain ⟨_, text, rest, htext, _⟩ := h
  rw [Segment.isLiteral, htext, Option.isSome_some]

theorem Occurs.isLiteral {s : Segment} (h : Occurs rows path input s) : s.isLiteral := by
  obtain ⟨_, text, htext, _⟩ := h
  rw [Segment.isLiteral, htext, Option.isSome_some]

/-- Where a literal is possible, one is chosen. -/
theorem MostSpecific.isLiteral {possible : Segment → Prop} {s t : Segment}
    (h : MostSpecific rows path possible s) (ht : possible t) (hliteral : t.isLiteral) :
    s.isLiteral := by
  cases t with
  | literal role text =>
    by_cases hplain : ∃ text, possible (.literal .plain text)
    · obtain ⟨text, hplain⟩ := hplain
      obtain ⟨longest, rfl, _⟩ := h.plain text hplain
      rfl
    · cases role with
      | plain => exact absurd ⟨text, ht⟩ hplain
      | separator =>
        obtain ⟨mark, rfl, _⟩ := h.separator (not_exists.mp hplain) text ht
        rfl
  | start | finish _ | slot _ | filled _ _ => cases hliteral

/-- Of two plain literals in front of one input that have the same length there is only one. -/
theorem Takeable.eq_of_byteSize_eq {s t : Text} (hs : Takeable rows path input (.literal .plain s))
    (ht : Takeable rows path input (.literal .plain t)) (h : Text.byteSize s = Text.byteSize t) :
    s = t := by
  obtain ⟨_, _, rest, ⟨⟩, hinput, _⟩ := hs
  obtain ⟨_, _, rest', ⟨⟩, hinput', _⟩ := ht
  exact Node.eq_of_byteSize_eq (hinput.symm.trans hinput') h

theorem Chosen.at {prev s : Segment} {before more : List Segment}
    (h : Chosen rows path (before ++ prev :: s :: more)) :
    ChosenBehind rows (path ++ (before ++ [prev]).map unfilled) prev
      ((s :: more).flatMap matched) s := by
  induction before generalizing path with
  | nil => exact h.1
  | cons first before ih =>
    have hmore : Chosen rows (path ++ [first.unfilled]) (before ++ prev :: s :: more) := by
      cases before <;> exact h.2
    simpa using ih hmore

end Segment

namespace Node

open Segment

section

variable {rows : List (List Segment)} {path : List Segment} {before after trees : List Node}
  {n : Node} {input : Text} {last : Bool}

/-! ## What is chosen at a level -/

theorem Level.waysOn_le (h : Level rows path trees) {a b : Node} (ha : a ∈ trees) (hb : b ∈ trees)
    (hprecedes : a.Precedes b) (hliteral : a.label.isLiteral = b.label.isLiteral)
    (hweight : a.label.weight = b.label.weight) :
    waysOn rows path b.label ≤ waysOn rows path a.label := by
  have hwider := hprecedes.wider_first hliteral hweight
  rwa [h.length_children ha, h.length_children hb] at hwider

/-- The first possible node of a level is the most specific. -/
theorem Level.mostSpecific (h : Level rows path (before ++ n :: after)) (hpath : path ≠ [])
    {possible : Segment → Prop} (hmem : ∀ t, possible t → t ∈ continuations rows path)
    (hbefore : ∀ m ∈ before, ¬ possible m.label) (hn : n.label.isLiteral → possible n.label) :
    MostSpecific rows path possible n.label := by
  have hin : n ∈ before ++ n :: after := by simp
  have hfirst : ∀ t, possible t →
      n.label = t ∨ ∃ m ∈ before ++ n :: after, m.label = t ∧ n.Precedes m := by
    intro t ht
    refine h.eq_or_precedes hpath (hmem t ht) fun m hm hlabel => hbefore m hm ?_
    rwa [hlabel]
  refine ⟨hn, fun text ht => ?_, fun hnone text ht => ?_⟩
  · rcases hfirst _ ht with heq | ⟨m, hm, hlabel, hprecedes⟩
    · exact ⟨text, heq, Nat.le_refl _, fun _ => by rw [heq]⟩
    · obtain ⟨longest, hlongest⟩ :=
        exists_plain_of_isPlain (hprecedes.isPlain (by rw [hlabel]; rfl))
      have hsame : n.label.isLiteral = m.label.isLiteral := by rw [hlongest, hlabel]; rfl
      have hheavier := hprecedes.heavier_first hsame
      have hwider := h.waysOn_le hin hm hprecedes hsame
      rw [hlabel, hlongest] at hheavier hwider
      exact ⟨longest, hlongest, hheavier, fun heq => hlongest ▸ hwider heq.symm⟩
  · rcases hfirst _ ht with heq | ⟨m, hm, hlabel, hprecedes⟩
    · exact ⟨text, heq, by rw [heq]⟩
    · have hliteral := hprecedes.literals_first (by rw [hlabel]; rfl)
      have hseparator := (isPlain_or_isSeparator hliteral).resolve_left fun hplain => by
        obtain ⟨longest, hlongest⟩ := exists_plain_of_isPlain hplain
        exact hnone longest (hlongest ▸ hn hliteral)
      obtain ⟨mark, hmark⟩ := exists_separator_of_isSeparator hseparator
      have hwider := h.waysOn_le hin hm hprecedes (by rw [hmark, hlabel]; rfl)
        (by rw [hmark, hlabel]; rfl)
      rw [hlabel] at hwider
      exact ⟨mark, hmark, hwider⟩

/-- The literals that can be taken are the labels of the nodes that can be. -/
theorem Level.takeable_iff (h : Level rows path trees) (hn : n ∈ trees)
    (hliteral : n.label.isLiteral) :
    Takeable rows path input n.label ↔ (n.take? last input).isSome := by
  have hmem := h.label_mem hn
  have hends := h.endsHere_iff hn
  obtain ⟨s, children⟩ := n
  cases s with
  | literal role text =>
    rw [Option.isSome_iff_exists]
    simp only [take?_literal_eq_some_iff]
    constructor
    · rintro ⟨_, _, rest, ⟨⟩, hinput, hall⟩
      exact ⟨_, rest, hinput, fun he => hall (hends.mp he), rfl⟩
    · rintro ⟨_, rest, hinput, hall, _⟩
      exact ⟨hmem, text, rest, rfl, hinput, fun he => hall (hends.mpr he)⟩
  | start | finish _ | slot _ | filled _ _ => cases hliteral

/-- The literals that occur are the labels of the nodes that can bound a value. -/
theorem Level.occurs_iff (h : Level rows path trees) (hn : n ∈ trees)
    (hliteral : n.label.isLiteral) :
    Occurs rows path input n.label ↔ (n.bound? input).isSome := by
  have hmem := h.label_mem hn
  obtain ⟨s, children⟩ := n
  cases s with
  | literal role text =>
    rw [bound?_literal_isSome_iff]
    constructor
    · rintro ⟨_, _, ⟨⟩, hoccurs⟩
      exact hoccurs
    · exact fun hoccurs => ⟨hmem, text, rfl, hoccurs⟩
  | start | finish _ | slot _ | filled _ _ => cases hliteral

theorem Level.mostSpecific_of_take? (h : Level rows path (before ++ n :: after)) (hpath : path ≠ [])
    (hbefore : ∀ m ∈ before, m.take? false input = none) (hn : (n.take? last input).isSome) :
    MostSpecific rows path (Takeable rows path input) n.label := by
  refine h.mostSpecific hpath (fun _ ht => ht.1) (fun m hm ht => ?_) fun hliteral => ?_
  · have hsome : (m.take? false input).isSome :=
      (h.takeable_iff (by simp [hm]) ht.isLiteral).mp ht
    rw [hbefore m hm] at hsome
    cases hsome
  · exact (h.takeable_iff (by simp) hliteral).mpr hn

theorem Level.mostSpecific_of_bound? (h : Level rows path (before ++ n :: after))
    (hpath : path ≠ []) (hbefore : ∀ m ∈ before, m.bound? input = none)
    (hn : (n.bound? input).isSome) :
    MostSpecific rows path (Occurs rows path input) n.label := by
  refine h.mostSpecific hpath (fun _ ht => ht.1) (fun m hm ht => ?_) fun hliteral => ?_
  · have hsome := (h.occurs_iff (by simp [hm]) ht.isLiteral).mp ht
    rw [hbefore m hm] at hsome
    cases hsome
  · exact (h.occurs_iff (by simp) hliteral).mpr hn

/-! ## What is chosen on the way down -/

theorem chosenBehind_of_taken {prev s : Segment} (hprev : prev.isSlot = false)
    (h : MostSpecific rows path (Takeable rows path input) s.unfilled)
    (hempty : s.isSlot → s.matched = [] → ∀ name, .finish name ∉ continuations rows path) :
    ChosenBehind rows path prev input s := by
  refine ⟨fun _ => h, fun hslot => ?_, fun hslot => ?_, hempty⟩ <;>
  · rw [hprev] at hslot
    cases hslot

theorem chosenBehind_of_bounding {prev s : Segment} (hprev : prev.isSlot)
    (h : MostSpecific rows path (Occurs rows path (prev.matched ++ input)) s.unfilled)
    (hfirst : ∀ mark ∈ s.literal?, Text.FirstAfter mark prev.matched) (hs : s.isSlot = false) :
    ChosenBehind rows path prev input s := by
  refine ⟨fun hnot => ?_, fun _ => h, fun _ => hfirst, fun hslot => ?_⟩
  · rw [hprev] at hnot
    cases hnot
  · rw [hs] at hslot
    cases hslot

variable (rows) in
/-- Descents through the children of a node choose behind `prev`, the segment that the
node has been taken for.  If `prev` is a slot, the child that bounds its value is
chosen. -/
structure ChoosesBelow (path : List Segment) (prev : Segment) (children : List Node) : Prop where
  descends : ∀ input, prev.isSlot = false → (descend children input).arrived →
    Chosen rows path (prev :: (descend children input).taken)
  bounds : ∀ input d, prev.isSlot → boundedBy? children input = some (prev.matched, d) →
    d.arrived → Chosen rows path (prev :: d.taken)

section

variable {prev : Segment} (h : Level rows (path ++ [prev.unfilled]) trees)
  (hbelow : ∀ n ∈ trees, ∀ s : Segment, s.unfilled = n.label →
    ChoosesBelow rows (path ++ [prev.unfilled]) s n.children)

include h hbelow

theorem Level.chosen_of_descend (hprev : prev.isSlot = false)
    (ha : (descend trees input).arrived) :
    Chosen rows path (prev :: (descend trees input).taken) := by
  have hmatched := (route_of_descend ha).flatMap_matched
  obtain ⟨before, ⟨s, below⟩, after, rfl, hbefore, htake⟩ := exists_take?_of_arrived ha
  have hmost := h.mostSpecific_of_take? (by simp) hbefore (by rw [htake]; rfl)
  have hin : Node.mk s below ∈ before ++ Node.mk s below :: after := by simp
  -- What the descent gives is from here on what taking this node gives.
  generalize descend (before ++ Node.mk s below :: after) input = d at *
  cases s with
  | start => exact absurd rfl (h.inner (by simp) hin).1
  | finish name =>
    obtain ⟨rfl, rfl⟩ := take?_finish_eq_some_iff.mp htake
    exact ⟨chosenBehind_of_taken hprev (hmatched ▸ hmost) nofun, trivial⟩
  | literal role text =>
    obtain ⟨rest, rfl, _, rfl⟩ := take?_literal_eq_some_iff.mp htake
    exact ⟨chosenBehind_of_taken hprev (hmatched ▸ hmost) nofun,
      (hbelow _ hin (.literal role text) rfl).descends rest rfl ha⟩
  | slot written =>
    obtain ⟨value, d', hbounded, hlast, rfl⟩ := take?_slot_eq_some_iff.mp htake
    have hempty : value = [] →
        ∀ name, .finish name ∉ continuations rows (path ++ [prev.unfilled]) := by
      intro hvalue
      obtain rfl := List.isEmpty_iff.mp (hlast hvalue)
      exact h.finish_not_mem (by simp) rfl
    exact ⟨chosenBehind_of_taken hprev (hmatched ▸ hmost) fun _ => hempty,
      (hbelow _ hin (.filled written value) rfl).bounds input d' rfl hbounded ha⟩
  | filled _ _ => cases htake

theorem Level.chosen_of_boundedBy? (hprev : prev.isSlot) {d : Descent}
    (hbounded : boundedBy? trees input = some (prev.matched, d)) (ha : d.arrived) :
    Chosen rows path (prev :: d.taken) := by
  obtain ⟨before, ⟨s, below⟩, after, rfl, hbefore, hbound⟩ := exists_bound?_of_boundedBy? hbounded
  have hmost := h.mostSpecific_of_bound? (by simp) hbefore (by rw [hbound]; rfl)
  have hin : Node.mk s below ∈ before ++ Node.mk s below :: after := by simp
  cases s with
  | finish name =>
    obtain ⟨hvalue, rfl⟩ := bound?_finish_eq_some_iff.mp hbound
    have hrest : prev.matched ++ [Segment.finish name].flatMap matched = input := by
      rw [← hvalue]
      exact List.append_nil _
    exact ⟨chosenBehind_of_bounding hprev (hrest ▸ hmost) nofun rfl, trivial⟩
  | literal role mark =>
    obtain ⟨rest, hinput, hfirst, rfl⟩ := bound?_literal_eq_some_iff.mp hbound
    have hrest : prev.matched ++ (Segment.literal role mark ::
        (descend below rest).taken).flatMap matched = input := by
      rw [List.flatMap_cons, (route_of_descend ha).flatMap_matched, hinput]
      rfl
    have hmark : ∀ text ∈ (Segment.literal role mark).literal?,
        Text.FirstAfter text prev.matched := by
      rintro _ ⟨⟩
      exact hfirst
    exact ⟨chosenBehind_of_bounding hprev (hrest ▸ hmost) hmark rfl,
      (hbelow _ hin (.literal role mark) rfl).descends rest rfl ha⟩
  | start | slot _ | filled _ _ => cases hbound

end

/-- On the way down each segment is chosen behind the one before it. -/
theorem Level.choosesBelow (n : Node) : ∀ (path : List Segment) (prev : Segment),
    Level rows (path ++ [prev.unfilled]) n.children → ChoosesBelow rows path prev n.children := by
  induction n using Node.induction with
  | step label children ih =>
    intro path prev h
    have hbelow : ∀ n ∈ children, ∀ s : Segment, s.unfilled = n.label →
        ChoosesBelow rows (path ++ [prev.unfilled]) s n.children := by
      intro n hn s hs
      refine ih n hn _ s ?_
      rw [hs]
      exact h.below hn
    exact ⟨fun _ hprev ha => h.chosen_of_descend hbelow hprev ha,
      fun _ _ hprev hbounded ha => h.chosen_of_boundedBy? hbelow hprev hbounded ha⟩

end
end Node

open Segment

theorem Catalog.Registered.chosen {c : Catalog} {ts : List Template} (h : c.Registered ts)
    {input : Text} {found : Template} (hf : (c.resolve input).1 = some found) :
    Chosen (ts.map Template.row) [] found.segments := by
  obtain ⟨children, hlevel, hresolve⟩ := h.exists_level
  rw [hresolve] at hf
  obtain ⟨ha, rfl⟩ := Option.ite_none_right_eq_some.mp hf |>.imp_right Option.some.inj
  exact (Node.Level.choosesBelow (.mk .start children) [] .start hlevel).descends input rfl ha

/-- Each segment of what an input is resolved to is the most specific that could be
chosen.  Behind a segment that is no slot, this is among the literals in front of what
is left, and there is no other plain literal as long; a slot or an end is chosen only
where no literal can be taken.  Behind a slot it is among the literals that occur
from where the slot began, the value ends where the chosen one is met first, and an end
is chosen only where none occurs. -/
theorem Catalog.Registered.resolve_mostSpecific {c : Catalog} {ts : List Template}
    (h : c.Registered ts) {input : Text} {found : Template}
    (hf : (c.resolve input).1 = some found) {before more : List Segment} {prev s : Segment}
    {rest : Text} (hseg : found.segments = before ++ prev :: s :: more)
    (hinput : input = (before ++ [prev]).flatMap matched ++ rest) :
    let rows := ts.map Template.row
    let path := (before ++ [prev]).map unfilled
    (prev.isSlot = false → MostSpecific rows path (Takeable rows path rest) s.unfilled ∧
      (∀ text, Takeable rows path rest (.literal .plain text) →
        s = .literal .plain text ∨ Text.byteSize text < s.weight) ∧
      (s.isLiteral = false → ∀ t, ¬ Takeable rows path rest t)) ∧
    (prev.isSlot → MostSpecific rows path (Occurs rows path (prev.matched ++ rest)) s.unfilled ∧
      (s.isFinish → ∀ t, ¬ Occurs rows path (prev.matched ++ rest) t) ∧
      ∀ mark ∈ s.literal?, Text.FirstAfter mark prev.matched) := by
  intro rows path
  have hchosen : Chosen rows [] (before ++ prev :: s :: more) := hseg ▸ h.chosen hf
  have hrest : (s :: more).flatMap matched = rest := by
    have hmatched := (h.sound.represents.route_of_resolve? hf).1.flatMap_matched
    rw [hseg, List.append_cons, List.flatMap_append, hinput] at hmatched
    exact List.append_cancel_left hmatched
  have hbehind : ChosenBehind rows path prev rest s := hrest ▸ hchosen.at
  refine ⟨fun hprev => ?_, fun hprev => ?_⟩
  · have hmost := hbehind.taken hprev
    refine ⟨hmost, fun text ht => ?_, fun hnot t ht => ?_⟩
    · obtain ⟨longest, hlongest, hle, _⟩ := hmost.plain text ht
      have hs := unfilled_eq_literal_iff.mp hlongest
      have htaken := hmost.possible_of_isLiteral (by rw [hlongest]; rfl)
      rw [hlongest] at htaken
      rw [hs]
      refine (Nat.eq_or_lt_of_le hle).imp (fun heq => ?_) id
      rw [ht.eq_of_byteSize_eq htaken heq]
    · have hliteral := hmost.isLiteral ht ht.isLiteral
      rw [isLiteral_unfilled, hnot] at hliteral
      cases hliteral
  · have hmost := hbehind.bounding hprev
    refine ⟨hmost, fun hfinish t ht => ?_, hbehind.bounded hprev⟩
    have hliteral := hmost.isLiteral ht ht.isLiteral
    cases s with
    | finish name => cases hliteral
    | start | literal _ _ | slot _ | filled _ _ => cases hfinish

/-- Two literals can be taken at the start, and two can bound the slot behind the longer
one. -/
theorem Catalog.Registered.resolve_mostSpecific_of_dashes :
    let slot : Segment := .slot ['<', 'x', '>']
    let ts : List Template := [
      .counted [.start, .literal .plain ['a'], slot, .finish none],
      .counted [.start, .literal .plain ['a', 'é'], slot, .literal .plain ['-'], .finish none],
      .counted [.start, .literal .plain ['a', 'é'], slot, .literal .plain ['-', '-'], .finish none]]
    let c := ts.foldl Catalog.insert (.new .braces .standard)
    let found : Template := .counted [.start, .literal .plain ['a', 'é'],
      .filled ['<', 'x', '>'] ['c'], .literal .plain ['-', '-'], .finish none]
    let rows := ts.map Template.row
    let path : List Segment := [.start, .literal .plain ['a', 'é'], slot]
    (c.resolve ['a', 'é', 'c', '-', '-']).1 = some found ∧
    (Takeable rows [.start] ['a', 'é', 'c', '-', '-'] (.literal .plain ['a']) ∧
      MostSpecific rows [.start] (Takeable rows [.start] ['a', 'é', 'c', '-', '-'])
        (.literal .plain ['a', 'é'])) ∧
    Occurs rows path ['c', '-', '-'] (.literal .plain ['-']) ∧
      MostSpecific rows path (Occurs rows path ['c', '-', '-']) (.literal .plain ['-', '-']) := by
  intro slot ts c found rows path
  have hregistered : c.Registered ts := Catalog.registered_foldl_ofSegments _ _ (by decide)
  have hf : (c.resolve ['a', 'é', 'c', '-', '-']).1 = some found := rfl
  have hstart : found.segments = [] ++ .start :: .literal .plain ['a', 'é'] ::
      [.filled ['<', 'x', '>'] ['c'], .literal .plain ['-', '-'], .finish none] := rfl
  have hslot : found.segments = [.start, .literal .plain ['a', 'é']] ++
      .filled ['<', 'x', '>'] ['c'] :: .literal .plain ['-', '-'] :: [.finish none] := rfl
  obtain ⟨htaken, _⟩ := hregistered.resolve_mostSpecific hf hstart rfl
  obtain ⟨_, hbounding⟩ := hregistered.resolve_mostSpecific hf hslot rfl
  refine ⟨hf, ⟨⟨by decide, ['a'], _, rfl, rfl, ?_⟩, (htaken rfl).1⟩,
    ⟨by decide, ['-'], rfl, by decide⟩, (hbounding rfl).1⟩
  rintro ⟨name, hends⟩
  have hslots : continuations rows [.start, .literal .plain ['a']] = [.slot ['<', 'x', '>']] := by
    decide
  cases hslots.symm.trans hends

end RouteTemplates
