import RouteTemplates.Proofs.Resolution.MostSpecific
import RouteTemplates.Proofs.Trie.Spine

/-!
# Routing by prefix

A descent never turns back, so in general it can miss a template that matches.  With
prefix routes it misses nothing.  Such a route is a literal that has to be the input,
or a literal, which may be empty, that has to stand in front of it, with a slot for
the rest.  The longest literal that can be taken is taken, and whatever is taken leads
to an end: behind a literal there is either a slot, which takes any rest, or one end,
and then the literal was taken only where it is all of the input.  This needs that a
literal is not registered as a whole route under two names.
-/

namespace RouteTemplates

open Segment

/-- A literal, and behind it a slot if `slot?` says how it is written. -/
@[ext]
structure PrefixRoute where
  literal : Text
  slot? : Option Text
  name : Option Text
  covers : literal = [] → slot?.isSome

namespace PrefixRoute

/-- What stands behind the literal. -/
def behind (r : PrefixRoute) : List Segment := (r.slot?.map .slot).toList ++ [.finish r.name]

def template (r : PrefixRoute) : Template :=
  .counted (.start :: (plainOf r.literal ++ r.behind))

variable {r : PrefixRoute} {rs : List PrefixRoute} {path : List Segment} {s : Segment}

theorem isFilled_eq_false (r : PrefixRoute) : ∀ s ∈ r.template.segments, s.isFilled = false := by
  obtain ⟨literal, slot?, name, covers⟩ := r
  by_cases hl : literal = [] <;> cases slot? <;>
    simp [template, behind, plainOf, hl, Template.counted, isFilled]

theorem row_template (r : PrefixRoute) :
    r.template.row = .start :: (plainOf r.literal ++ r.behind) := by
  obtain ⟨literal, slot?, name, covers⟩ := r
  by_cases hl : literal = [] <;> cases slot? <;>
    simp [template, Template.row, Template.unfilled, behind, plainOf, hl, Template.counted,
      Segment.unfilled]

theorem wellFormed (r : PrefixRoute) : r.template.WellFormed := by
  refine ⟨⟨_, rfl, Tail.plainOf_append _ ?_⟩, rfl⟩
  cases hslot : r.slot? with
  | none => simpa [behind, hslot] using Tail.finish r.name
  | some written =>
    simpa [behind, hslot] using Tail.slot rfl (opensApart_finish r.name) (.finish r.name)

/-- The route matches where its literal stands in front, and if it has no slot, where
nothing follows. -/
theorem lookup?_isSome_iff {input : Text} : (r.template.lookup? input).isSome ↔
    ∃ rest, input = r.literal ++ rest ∧ (r.slot? = none → rest = []) := by
  have hbehind : ∀ rest, (Template.extractFrom r.behind rest).complete ↔
      (r.slot? = none → rest = []) := by
    intro rest
    cases hslot : r.slot? <;> simp [behind, hslot, Template.extractFrom, Template.slotValue?,
      Extraction.ended, Extraction.cons]
  rw [r.wellFormed.lookup?_isSome_iff r.isFilled_eq_false]
  show (Template.extractFrom (plainOf r.literal ++ r.behind) input).complete ↔ _
  simp only [← hbehind]
  by_cases hl : r.literal = []
  · simp [plainOf, hl]
  · rw [plainOf, if_neg hl, List.singleton_append, Template.extractFrom]
    cases hfront : r.literal.isPrefixOf? input with
    | none =>
      refine iff_of_false Bool.false_ne_true ?_
      rintro ⟨rest, rfl, _⟩
      exact Text.isPrefixOf?_eq_none_iff.mp hfront (List.prefix_append _ _)
    | some rest =>
      obtain rfl := Text.isPrefixOf?_eq_some_iff.mp hfront
      simp

/-! ## What follows what -/

variable (rs) in
/-- The rows the routes are registered under. -/
def rows : List (List Segment) := (rs.map template).map Template.row

theorem head?_behind : r.behind.head? = some s ↔
    (∃ written, r.slot? = some written ∧ s = .slot written) ∨
      (r.slot? = none ∧ s = .finish r.name) := by
  cases hslot : r.slot? <;> simp [behind, hslot, eq_comm]

theorem mem_continuations_iff : s ∈ continuations (rows rs) path ↔
    ∃ r ∈ rs, path ++ [s] <+: .start :: (plainOf r.literal ++ r.behind) := by
  simp [mem_continuations, rows, row_template]

/-- The start is followed by the literals, and by the slots that stand without one. -/
theorem mem_start_iff : s ∈ continuations (rows rs) [.start] ↔
    ∃ r ∈ rs, (r.literal ≠ [] ∧ s = .literal .plain r.literal) ∨
      (r.literal = [] ∧ ∃ written, r.slot? = some written ∧ s = .slot written) := by
  rw [mem_continuations_iff]
  refine exists_congr fun r => and_congr_right fun _ => ?_
  rw [List.singleton_append, List.cons_prefix_cons, List.singleton_prefix_iff_head?_eq_some]
  by_cases hl : r.literal = []
  · have hsome : r.slot? ≠ none := fun hnone => by simpa [hnone] using r.covers hl
    simp [plainOf, hl, head?_behind, hsome]
  · simp [plainOf, hl, eq_comm]

theorem mem_literal_iff {text : Text} (hne : text ≠ []) :
    s ∈ continuations (rows rs) [.start, .literal .plain text] ↔
      ∃ r ∈ rs, r.literal = text ∧ r.behind.head? = some s := by
  rw [mem_continuations_iff]
  refine exists_congr fun r => and_congr_right fun _ => ?_
  by_cases hl : r.literal = []
  · have hfirst : r.behind.head? ≠ some (.literal .plain text) := by simp [head?_behind]
    rw [hl, plainOf, if_pos rfl, List.nil_append]
    refine iff_of_false (fun hprefix => hfirst ?_) fun heq => hne heq.1.symm
    obtain ⟨more, hmore⟩ := (List.cons_prefix_cons.mp hprefix).2
    rw [← hmore]
    rfl
  · simp [plainOf, hl, List.singleton_prefix_iff_head?_eq_some, eq_comm]

/-- A slot is followed by ends only. -/
theorem isFinish_of_mem_slot {written : Text}
    (h : s ∈ continuations (rows rs) (path ++ [.slot written])) : s.isFinish := by
  obtain ⟨r, _, more, hmore⟩ := mem_continuations_iff.mp h
  have hfront : .slot written ∉ .start :: plainOf r.literal := by
    by_cases hl : r.literal = [] <;> simp [plainOf, hl]
  have hsplit : path ++ (.slot written :: s :: more) = .start :: plainOf r.literal ++ r.behind := by
    simpa using hmore
  -- The slot cannot stand in front, so it is the one behind the literal.
  have hbehind : ∃ before, r.behind = before ++ .slot written :: s :: more := by
    rcases List.append_eq_append_iff.mp hsplit with ⟨gap, hgap, hrest⟩ | ⟨gap, hgap, hrest⟩
    · cases gap with
      | nil => exact ⟨[], hrest.symm⟩
      | cons t gap =>
        obtain ⟨rfl, _⟩ := List.cons.inj hrest
        rw [hgap] at hfront
        simp at hfront
    · exact ⟨gap, hrest⟩
  obtain ⟨before, hbefore⟩ := hbehind
  cases hslot : r.slot? with
  | none => cases before <;> simp [behind, hslot] at hbefore
  | some other =>
    cases before with
    | nil =>
      obtain ⟨_, rfl, _⟩ : other = written ∧ .finish r.name = s ∧ more = [] := by
        simpa [behind, hslot, eq_comm] using hbefore
      rfl
    | cons t before => cases before <;> simp [behind, hslot] at hbefore

/-! ## No choice is wrong -/

section

open Node

variable {trees children : List Node} {n : Node} {input text rest : Text}

/-- A slot takes all that is left, except nothing if a sibling follows. -/
theorem take?_slot (h : Level (rows rs) path trees) (hn : n ∈ trees) (hslot : n.label.isSlot)
    (last : Bool) (input : Text) :
    (∀ d, n.take? last input = some d → d.arrived) ∧
      ((input = [] → last) → (n.take? last input).isSome) := by
  have hproper := h.proper.proper n hn
  have hbelow := h.below hn
  obtain ⟨s, children⟩ := n
  cases s with
  | slot written =>
    obtain ⟨⟨t, below⟩, more, rfl⟩ : ∃ m more, children = m :: more := by
      refine List.exists_cons_of_ne_nil fun hnil => ?_
      cases hproper.leaf_iff.mp hnil
    have hfinish := isFinish_of_mem_slot (hbelow.label_mem List.mem_cons_self)
    cases t with
    | finish name =>
      rw [take?, boundedBy?, bound?]
      by_cases hempty : input = [] <;> cases last <;>
        simp [hempty, Descent.cons, Descent.arrival]
    | start | literal _ _ | slot _ | filled _ _ => cases hfinish
  | filled _ _ => cases hproper.not_filled
  | start | finish _ | literal _ _ => cases hslot

/-- A level with a slot is never left without a choice. -/
theorem arrived_of_slot (h : Level (rows rs) path trees) (hpath : path ≠ [])
    (hsure : Sure trees input) (hslot : ∃ n ∈ trees, n.label.isSlot) :
    (descend trees input).arrived := by
  obtain ⟨n, hn, hslot⟩ := hslot
  by_cases hinput : input = []
  · -- Nothing is left, which the last of the siblings takes.
    obtain ⟨before, m, rfl⟩ := (List.eq_nil_or_concat' trees).resolve_left (List.ne_nil_of_mem hn)
    have hm : m ∈ before ++ [m] := by simp
    refine hsure.arrived_descend ?_
    by_cases hlast : m.label.isSlot
    · exact (take?_slot h hm hlast true input).2 fun _ => rfl
    · have hnot := h.last_not_isLiteral hpath hn hslot
      have hfinish : m.label.isFinish := by
        by_contra hfinish
        exact hlast ((h.inner hpath hm).isSlot hnot (Bool.eq_false_iff.mpr hfinish))
      obtain ⟨s, children⟩ := m
      cases s with
      | finish name =>
        exact Option.isSome_iff_exists.mpr ⟨_, take?_finish_eq_some_iff.mpr ⟨hinput, rfl⟩⟩
      | start | literal _ _ | slot _ | filled _ _ => cases hfinish
  · obtain ⟨before, after, rfl⟩ := List.append_of_mem hn
    exact hsure.arrived_descend ((take?_slot h hn hslot _ input).2 fun hnil => absurd hnil hinput)

/-- Behind a literal stand slots and ends. -/
theorem sure_behind (h : Level (rows rs) [.start, .literal .plain text] trees) (hne : text ≠ [])
    (input : Text) : Sure trees input := by
  intro n hn last d htake
  obtain ⟨r, _, _, hhead⟩ := (mem_literal_iff hne).mp (h.label_mem hn)
  rcases head?_behind.mp hhead with ⟨written, _, hlabel⟩ | ⟨_, hlabel⟩
  · exact (take?_slot h hn (by rw [hlabel]; rfl) last input).1 d htake
  · obtain ⟨s, children⟩ := n
    obtain rfl : s = .finish r.name := hlabel
    obtain ⟨_, rfl⟩ := take?_finish_eq_some_iff.mp htake
    rfl

variable (hnames : ∀ r ∈ rs, ∀ s ∈ rs, r.slot? = none → s.slot? = none →
  r.literal = s.literal → r.name = s.name)

include hnames

/-- Behind a literal that has been taken there is a slot, or nothing is left. -/
theorem arrived_behind (h : Level (rows rs) [.start, .literal .plain text] trees) (hne : text ≠ [])
    (htrees : trees ≠ []) (hends : endsHere trees → rest = []) :
    (descend trees rest).arrived := by
  by_cases hslot : ∃ n ∈ trees, n.label.isSlot
  · exact arrived_of_slot h (by simp) (sure_behind h hne rest) hslot
  · have hwhole : ∀ n ∈ trees, ∃ r ∈ rs, r.literal = text ∧ r.slot? = none ∧
        n.label = .finish r.name := by
      intro n hn
      obtain ⟨r, hr, hl, hhead⟩ := (mem_literal_iff hne).mp (h.label_mem hn)
      rcases head?_behind.mp hhead with ⟨written, _, hlabel⟩ | ⟨hnone, hlabel⟩
      · exact absurd ⟨n, hn, by rw [hlabel]; rfl⟩ hslot
      · exact ⟨r, hr, hl, hnone, hlabel⟩
    obtain ⟨n, more, rfl⟩ := List.exists_cons_of_ne_nil htrees
    obtain ⟨r, hr, hl, hnone, hlabel⟩ := hwhole n List.mem_cons_self
    obtain rfl : more = [] := by
      refine List.eq_nil_iff_forall_not_mem.mpr fun m hm => ?_
      obtain ⟨s, hs, hl', hnone', hlabel'⟩ := hwhole m (List.mem_cons_of_mem n hm)
      have hname := hnames r hr s hs hnone hnone' (hl.trans hl'.symm)
      have hdistinct := (List.nodup_cons.mp h.proper.distinct).1
      rw [hlabel, hname, ← hlabel'] at hdistinct
      exact hdistinct (List.mem_map_of_mem hm)
    obtain ⟨s, below⟩ := n
    obtain rfl : s = .finish r.name := hlabel
    rw [hends rfl, arrived_descend_ends (by simp) (by simp [isFinish])]
    rfl

theorem sure_start (h : Level (rows rs) [.start] trees) (input : Text) : Sure trees input := by
  intro n hn last d htake
  obtain ⟨r, _, ⟨hne, hlabel⟩ | ⟨_, written, _, hlabel⟩⟩ := mem_start_iff.mp (h.label_mem hn)
  · have hproper := h.proper.proper n hn
    have hbelow := h.below hn
    obtain ⟨s, children⟩ := n
    obtain rfl : s = .literal .plain r.literal := hlabel
    obtain ⟨rest, rfl, hends, rfl⟩ := take?_literal_eq_some_iff.mp htake
    exact arrived_behind hnames hbelow hne (fun hnil => by cases hproper.leaf_iff.mp hnil) hends
  · exact (take?_slot h hn (by rw [hlabel]; rfl) last input).1 d htake

omit hnames in
/-- The literal of a route that matches can be taken. -/
theorem takeable (hr : r ∈ rs) (hne : r.literal ≠ []) (hrest : r.slot? = none → rest = []) :
    Takeable (rows rs) [.start] (r.literal ++ rest) (.literal .plain r.literal) := by
  refine ⟨mem_start_iff.mpr ⟨r, hr, .inl ⟨hne, rfl⟩⟩, r.literal, rest, rfl, rfl, ?_⟩
  rintro ⟨name, hends⟩
  refine hrest (Option.eq_none_iff_forall_not_mem.mpr fun written hslot => ?_)
  have hmem := (mem_literal_iff hne).mpr ⟨r, hr, rfl, head?_behind.mpr (.inl ⟨written, hslot, rfl⟩)⟩
  change _ ∈ continuations (rows rs) ([.start] ++ [.literal .plain r.literal]) at hmem
  rw [hends] at hmem
  simp at hmem

/-- Where a route matches, the descent arrives. -/
theorem arrived_start (h : Level (rows rs) [.start] trees) (hr : r ∈ rs)
    (hrest : r.slot? = none → rest = []) : (descend trees (r.literal ++ rest)).arrived := by
  have hsure := sure_start hnames h (r.literal ++ rest)
  by_cases hne : r.literal = []
  · obtain ⟨written, hslot⟩ := Option.isSome_iff_exists.mp (r.covers hne)
    obtain ⟨n, hn, hlabel⟩ := h.exists_of_mem
      (mem_start_iff.mpr ⟨r, hr, .inr ⟨hne, written, hslot, rfl⟩⟩)
    exact arrived_of_slot h (by simp) hsure ⟨n, hn, by rw [hlabel]; rfl⟩
  · have htakeable := takeable hr hne hrest
    obtain ⟨n, hn, hlabel⟩ := h.exists_of_mem htakeable.1
    rw [← hlabel] at htakeable
    obtain ⟨before, after, rfl⟩ := List.append_of_mem hn
    exact hsure.arrived_descend ((h.takeable_iff hn (by rw [hlabel]; rfl)).mp htakeable)

end

/-! ## The right choice -/

section

variable {row : List Segment} {text : Text}

/-- The chosen literal is as long as any that can be taken. -/
theorem byteSize_le_of_takeable (hchosen : Chosen (rows rs) [] row)
    (hrow : row.map unfilled = .start :: (plainOf r.literal ++ r.behind))
    (htake : Takeable (rows rs) [.start] (row.flatMap matched) (.literal .plain text)) :
    Text.byteSize text ≤ Text.byteSize r.literal := by
  obtain ⟨opening, tail, rfl, hopening, htail⟩ := List.map_eq_cons_iff.mp hrow
  obtain rfl : opening = .start := by cases opening <;> first | rfl | cases hopening
  cases tail with
  | nil => simp [behind] at htail
  | cons first more =>
    obtain ⟨longest, hlongest, hle, _⟩ := (hchosen.1.taken rfl).plain text htake
    rw [List.map_cons, hlongest] at htail
    by_cases hl : r.literal = []
    · have hfirst : r.behind.head? = some (.literal .plain longest) := by
        rw [hl, plainOf, if_pos rfl, List.nil_append] at htail
        rw [← htail, List.head?_cons]
      simp [head?_behind] at hfirst
    · obtain ⟨heq, _⟩ : longest = r.literal ∧ more.map unfilled = r.behind := by
        simpa [plainOf, hl] using htail
      exact heq ▸ hle

/-- Where a row ends behind the literal, no slot is filled with nothing. -/
theorem slot?_eq_none (hchosen : Chosen (rows rs) [] row) (hne : r.literal ≠ [])
    (hrow : row.map unfilled = .start :: (plainOf r.literal ++ r.behind))
    (hmatched : row.flatMap matched = r.literal) {name : Option Text}
    (hends : .finish name ∈ continuations (rows rs) [.start, .literal .plain r.literal]) :
    r.slot? = none := by
  refine Option.eq_none_iff_forall_not_mem.mpr fun written hslot => ?_
  have hrow' : row.map unfilled =
      [.start, .literal .plain r.literal, .slot written, .finish r.name] := by
    rw [hrow, behind, Option.mem_def.mp hslot, plainOf, if_neg hne]
    rfl
  obtain ⟨opening, tail, rfl, hopening, htail⟩ := List.map_eq_cons_iff.mp hrow'
  obtain ⟨first, tail, rfl, hfirst, htail⟩ := List.map_eq_cons_iff.mp htail
  obtain ⟨second, tail, rfl, hsecond, htail⟩ := List.map_eq_cons_iff.mp htail
  obtain rfl : opening = .start := by cases opening <;> first | rfl | cases hopening
  obtain rfl := unfilled_eq_literal_iff.mp hfirst
  have hisSlot : second.isSlot := by rw [← isSlot_unfilled, hsecond]; rfl
  have hempty : second.matched = [] := by
    have hrest : r.literal ++ (second.matched ++ tail.flatMap matched) = r.literal ++ [] := by
      rw [List.append_nil]
      exact hmatched
    exact (List.append_eq_nil_iff.mp (List.append_cancel_left hrest)).1
  exact hchosen.2.1.not_ends_of_empty hisSlot hempty name hends

end

/-- A route whose literal is no shorter than an input that it matches says the input. -/
theorem literal_eq_of_byteSize_le {input : Text} (hmatch : (r.template.lookup? input).isSome)
    (hle : Text.byteSize input ≤ Text.byteSize r.literal) : r.literal = input := by
  obtain ⟨rest, rfl, _⟩ := lookup?_isSome_iff.mp hmatch
  rw [Text.byteSize_append] at hle
  have hrest : rest = [] := Text.byteSize_eq_zero.mp (by omega)
  rw [hrest, List.append_nil]

/-- What is found is a route that matches. -/
theorem exists_of_resolve {c : Catalog} (h : c.Registered (rs.map template)) {input : Text}
    {found : Template} (hf : (c.resolve input).1 = some found) :
    ∃ r ∈ rs, found.unfilled = r.template ∧ (r.template.lookup? input).isSome := by
  obtain ⟨hroute, hmem, hcount⟩ := h.sound.represents.route_of_resolve? hf
  obtain ⟨_, ht, hrow⟩ := List.mem_map.mp hmem
  obtain ⟨r, hr, rfl⟩ := List.mem_map.mp ht
  have hfit := (h.sound.fit_of_resolve? hf).resolve_left fun hempty => hroute.taken_ne_nil
    (congrArg Template.segments hempty)
  have hunfilled : found.unfilled = r.template := by
    refine hfit.unfilled.eq_of_segments_eq r.wellFormed ?_
    exact hrow.symm.trans r.row_template
  refine ⟨r, hr, hunfilled, ?_⟩
  rw [← hunfilled, (hroute.lookup?_eq hcount).2]
  rfl

end PrefixRoute

open PrefixRoute

/-- Where only prefix routes are registered, in whatever order, and no literal as a
whole under two names, an input is resolved if and only if one of them matches.  It is
resolved to one with the longest literal among those that match, and to the literal
itself where a route says so. -/
theorem Catalog.Registered.resolve_prefixRoutes {c : Catalog} {rs : List PrefixRoute}
    (h : c.Registered (rs.map PrefixRoute.template))
    (hnames : ∀ r ∈ rs, ∀ s ∈ rs, r.slot? = none → s.slot? = none →
      r.literal = s.literal → r.name = s.name) (input : Text) :
    ((c.resolve input).1.isSome ↔ ∃ r ∈ rs, (r.template.lookup? input).isSome) ∧
    ∀ found, (c.resolve input).1 = some found →
      ∃ r ∈ rs, found.unfilled = r.template ∧ (r.template.lookup? input).isSome ∧
        (∀ s ∈ rs, (s.template.lookup? input).isSome →
          Text.byteSize s.literal ≤ Text.byteSize r.literal) ∧
        ∀ s ∈ rs, s.slot? = none → s.literal = input → r = s := by
  refine ⟨⟨fun hsome => ?_, fun hmatch => ?_⟩, fun found hf => ?_⟩
  · obtain ⟨found, hf⟩ := Option.isSome_iff_exists.mp hsome
    obtain ⟨r, hr, _, hlookup⟩ := exists_of_resolve h hf
    exact ⟨r, hr, hlookup⟩
  · obtain ⟨r, hr, hlookup⟩ := hmatch
    obtain ⟨rest, rfl, hrest⟩ := lookup?_isSome_iff.mp hlookup
    obtain ⟨children, hlevel, hresolve⟩ := h.exists_level
    rw [hresolve, if_pos (arrived_start hnames hlevel hr hrest)]
    rfl
  · obtain ⟨r, hr, hunfilled, hlookup⟩ := exists_of_resolve h hf
    have hchosen : Chosen (rows rs) [] found.segments := h.chosen hf
    have hmatched := (h.sound.represents.route_of_resolve? hf).1.flatMap_matched
    have hrow : found.segments.map unfilled = .start :: (plainOf r.literal ++ r.behind) :=
      congrArg Template.segments hunfilled
    have hlongest : ∀ s ∈ rs, (s.template.lookup? input).isSome →
        Text.byteSize s.literal ≤ Text.byteSize r.literal := by
      intro s hs hmatch
      by_cases hl : s.literal = []
      · rw [hl]
        exact Nat.zero_le _
      · obtain ⟨rest, hinput, hrest⟩ := lookup?_isSome_iff.mp hmatch
        refine byteSize_le_of_takeable hchosen hrow ?_
        rw [hmatched, hinput]
        exact takeable hs hl hrest
    refine ⟨r, hr, hunfilled, hlookup, hlongest, fun s hs hwhole hl => ?_⟩
    have hne : s.literal ≠ [] := fun hnil => by simpa [hwhole] using s.covers hnil
    have hmatch : (s.template.lookup? input).isSome :=
      lookup?_isSome_iff.mpr ⟨[], by rw [hl, List.append_nil], fun _ => rfl⟩
    have hle := hlongest s hs hmatch
    rw [hl] at hle
    have hinput : r.literal = input := literal_eq_of_byteSize_le hlookup hle
    have hliteral : r.literal = s.literal := hinput.trans hl.symm
    have hends : .finish s.name ∈ continuations (rows rs) [.start, .literal .plain r.literal] :=
      (mem_literal_iff (hliteral ▸ hne)).mpr
        ⟨s, hs, hliteral.symm, head?_behind.mpr (.inr ⟨hwhole, rfl⟩)⟩
    have hnone : r.slot? = none :=
      slot?_eq_none hchosen (hliteral ▸ hne) hrow (hmatched.trans hinput.symm) hends
    exact PrefixRoute.ext hliteral (hnone.trans hwhole.symm)
      (hnames r hr s hs hnone hwhole hliteral)

/-- Three texts, one of which is the input itself and all of which match it. -/
theorem Catalog.Registered.resolve_prefixRoutes_of_texts :
    let all : PrefixRoute := ⟨[], some ['\x7b', 'y', '\x7d'], some ['a'], fun _ => rfl⟩
    let below : PrefixRoute := ⟨['/'], some ['\x7b', 'x', '\x7d'], none, nofun⟩
    let whole : PrefixRoute := ⟨['/', 'é'], none, some ['w'], nofun⟩
    let c := ([all, below, whole].map PrefixRoute.template).foldl Catalog.insert
      (.new .braces .standard)
    Template.compile .braces ['a'] ['\x7b', 'y', '\x7d'] = .ok all.template ∧
    Template.compile .braces [] ['/', '\x7b', 'x', '\x7d'] = .ok below.template ∧
    Template.compile .braces ['w'] ['/', 'é'] = .ok whole.template ∧
    (c.resolve ['/', 'é']).1.isSome ∧
      ∀ found, (c.resolve ['/', 'é']).1 = some found → found.unfilled = whole.template := by
  intro all below whole c
  have hall : Template.compile .braces ['a'] ['\x7b', 'y', '\x7d'] = .ok all.template := rfl
  have hbelow : Template.compile .braces [] ['/', '\x7b', 'x', '\x7d'] = .ok below.template := rfl
  have hwhole : Template.compile .braces ['w'] ['/', 'é'] = .ok whole.template := rfl
  have hregistered : c.Registered ([all, below, whole].map PrefixRoute.template) := by
    refine Catalog.registered_foldl _ _ ?_
    simpa using ⟨.compile hall, .compile hbelow, .compile hwhole⟩
  have hnames : ∀ r ∈ [all, below, whole], ∀ s ∈ [all, below, whole], r.slot? = none →
      s.slot? = none → r.literal = s.literal → r.name = s.name := by
    simp [all, below, whole]
  obtain ⟨hiff, hfound⟩ := hregistered.resolve_prefixRoutes hnames ['/', 'é']
  refine ⟨hall, hbelow, hwhole, hiff.mpr ⟨whole, by simp, rfl⟩, fun found hf => ?_⟩
  obtain ⟨r, _, hunfilled, _, _, hexact⟩ := hfound found hf
  rw [hunfilled, hexact whole (by simp) rfl rfl]

end RouteTemplates
