import RouteTemplates.Proofs.Reassembly

/-!
# Looking other inputs up in a match

A match can be looked up in again, with another input.  Its literals have to be met as
before, but its slots look at no literal: each takes as many bytes as were captured for
it.  Counted in bytes, the same places are then cut in every input, and an input that has
the middle of a character at one of them is not found.  So what is found are the inputs
that come from the match by putting other texts of the same sizes in the place of its
values.
-/

namespace RouteTemplates

open Segment

theorem Segment.length_captured {row : List Segment} (h : ∀ s ∈ row, s.isSlot → s.isFilled) :
    (captured row).length = row.countP isSlot := by
  rw [captured, List.length_filterMap_eq_countP]
  refine List.countP_congr fun s hs => ?_
  cases s with
  | slot _ => cases h _ hs rfl
  | filled _ _ => exact iff_of_true rfl rfl
  | start | finish _ | literal _ _ => exact iff_of_false nofun nofun

namespace Template

/-- The input is the template with the values in place of those that were captured, each
of the size of the one it stands for. -/
structure Refilled (t : Template) (values : List Text) (input : Text) : Prop where
  sizes : values.map Text.byteSize = (captured t.segments).map Text.byteSize
  spelled : t.unfilled.instantiate values = input

theorem Refilled.length_values {t : Template} {values : List Text} {input : Text}
    (h : t.Refilled values input) (hfilled : ∀ s ∈ t.segments, s.isSlot → s.isFilled) :
    values.length = t.slotNames.length := by
  have hlength := congrArg List.length h.sizes
  rwa [List.length_map, List.length_map, length_captured hfilled, ← length_slotNames] at hlength

/-! ## Rows without open slots -/

theorem extractFrom_filled_eq_iff {written value : Text} {more : List Segment} {input : Text}
    {bs : Bindings} :
    extractFrom (.filled written value :: more) input = ⟨bs, true⟩ ↔
      ∃ taken rest bs', input = taken ++ rest ∧ Text.byteSize taken = Text.byteSize value ∧
        extractFrom more rest = ⟨bs', true⟩ ∧ bs = ⟨nameWithin written, taken⟩ :: bs' := by
  constructor
  · intro h
    rw [extractFrom] at h
    split at h
    · rename_i taken rest htake
      obtain ⟨hinput, hsize⟩ := Text.takeBytes?_eq_some_iff.mp htake
      obtain ⟨rfl, hcomplete⟩ := Extraction.mk.inj h
      exact ⟨taken, rest, _, hinput, hsize, by rw [← hcomplete], rfl⟩
    · cases h
  · rintro ⟨taken, rest, bs', hinput, hsize, hmore, rfl⟩
    rw [extractFrom, Text.takeBytes?_eq_some_iff.mpr ⟨hinput, hsize⟩]
    simp only [hmore, Extraction.cons]

/-- A row whose slots are all filled goes through exactly on the texts that come from it by
putting values of the same sizes in the place of its own. -/
theorem extractFrom_eq_iff_of_filled {row : List Segment} (h : Tail row)
    (hfilled : ∀ s ∈ row, s.isSlot → s.isFilled) {input : Text} {bs : Bindings} :
    extractFrom row input = ⟨bs, true⟩ ↔
      ∃ values, values.map Text.byteSize = (captured row).map Text.byteSize ∧
        Segment.instantiate (row.map Segment.unfilled) values = input ∧
        bs = List.zipWith Binding.mk (Segment.slotNames row) values := by
  induction h generalizing input bs with
  | finish name =>
    rw [extractFrom_finish, Extraction.ended, Extraction.mk.injEq, List.isEmpty_iff]
    constructor
    · rintro ⟨rfl, rfl⟩
      exact ⟨[], rfl, rfl, rfl⟩
    · rintro ⟨values, hsizes, rfl, rfl⟩
      obtain rfl := List.map_eq_nil_iff.mp hsizes
      exact ⟨rfl, rfl⟩
  | @literal role text more _ _ ih =>
    have ih := fun rest => @ih (fun s hs => hfilled s (List.mem_cons_of_mem _ hs)) rest bs
    rw [extractFrom_literal_eq_iff]
    constructor
    · rintro ⟨rest, rfl, hmore⟩
      obtain ⟨values, hsizes, rfl, rfl⟩ := (ih rest).mp hmore
      exact ⟨values, hsizes, rfl, rfl⟩
    · rintro ⟨values, hsizes, rfl, rfl⟩
      exact ⟨_, rfl, (ih _).mpr ⟨values, hsizes, rfl, rfl⟩⟩
  | @slot s more hs ha hm ih =>
    have ih := @ih fun s hs => hfilled s (List.mem_cons_of_mem _ hs)
    obtain ⟨written, value, rfl⟩ : ∃ written value, s = .filled written value := by
      have hvalue := hfilled s List.mem_cons_self hs
      cases s with
      | filled written value => exact ⟨written, value, rfl⟩
      | slot _ => cases hvalue
      | start | finish _ | literal _ _ => cases hs
    rw [extractFrom_filled_eq_iff]
    constructor
    · rintro ⟨taken, rest, bs', rfl, hsize, hmore, rfl⟩
      obtain ⟨values, hsizes, rfl, rfl⟩ := ih.mp hmore
      exact ⟨taken :: values, congrArg₂ List.cons hsize hsizes, rfl, rfl⟩
    · rintro ⟨values, hsizes, rfl, rfl⟩
      obtain ⟨taken, values, rfl, hsize, hsizes⟩ := List.map_eq_cons_iff.mp hsizes
      exact ⟨taken, _, _, rfl, hsize, ih.mpr ⟨values, hsizes, rfl, rfl⟩, rfl⟩

/-- The texts that stand in for a row have a boundary wherever the row has one. -/
theorem hasBoundary_instantiate {before row : List Segment} {values : List Text}
    (hfilled : ∀ s ∈ before, s.isSlot → s.isFilled)
    (hsizes : values.map Text.byteSize = (captured (before ++ row)).map Text.byteSize) :
    Text.HasBoundary (Segment.instantiate ((before ++ row).map Segment.unfilled) values)
      (Text.byteSize (before.flatMap matched)) := by
  induction before generalizing values with
  | nil => exact ⟨[], _, rfl, rfl⟩
  | cons s before ih =>
    obtain ⟨hs, hbefore⟩ := List.forall_mem_cons.mp hfilled
    rw [List.flatMap_cons, Text.byteSize_append]
    cases s with
    | slot written => cases hs rfl
    | filled written value =>
      obtain ⟨taken, values, rfl, hsize, hsizes⟩ := List.map_eq_cons_iff.mp hsizes
      obtain ⟨front, rest, hsplit, hfront⟩ := ih hbefore hsizes
      refine ⟨taken ++ front, rest, ?_, ?_⟩
      · rw [List.append_assoc, ← hsplit]
        rfl
      · rw [Text.byteSize_append, hsize, hfront]
        rfl
    | literal role text =>
      obtain ⟨front, rest, hsplit, hfront⟩ := ih hbefore hsizes
      refine ⟨text ++ front, rest, ?_, ?_⟩
      · rw [List.append_assoc, ← hsplit]
        rfl
      · rw [Text.byteSize_append, hfront]
        rfl
    | start | finish _ =>
      obtain ⟨front, rest, hsplit, hfront⟩ := ih hbefore hsizes
      refine ⟨front, rest, hsplit, ?_⟩
      rw [hfront]
      exact (Nat.zero_add _).symm

/-! ## Lookups -/

section

variable {t : Template} (h : t.WellFormed) (hfilled : ∀ s ∈ t.segments, s.isSlot → s.isFilled)
  {input : Text}
include h hfilled

theorem WellFormed.lookup?_eq_some_iff_refilled {bs : Bindings} :
    t.lookup? input = some bs ↔ ∃ values, t.Refilled values input ∧ bs = t.bind values := by
  obtain ⟨more, hseg, htail⟩ := h.framed
  have hmore : ∀ s ∈ more, s.isSlot → s.isFilled := fun s hs =>
    hfilled s (by rw [hseg]; exact List.mem_cons_of_mem _ hs)
  have hread : extractFrom t.segments input = ⟨bs, true⟩ ↔
      ∃ values, t.Refilled values input ∧ bs = t.bind values := by
    obtain ⟨segments, slotCount⟩ := t
    obtain rfl : segments = .start :: more := hseg
    refine (extractFrom_eq_iff_of_filled htail hmore).trans (exists_congr fun values => ?_)
    constructor
    · rintro ⟨hsizes, hspelled, hbs⟩
      exact ⟨⟨hsizes, hspelled⟩, hbs⟩
    · rintro ⟨⟨hsizes, hspelled⟩, hbs⟩
      exact ⟨hsizes, hspelled, hbs⟩
  rw [lookup?_eq_some_iff h.segments_ne_nil, hread, and_iff_left_iff_imp]
  rintro ⟨values, hvalues, rfl⟩
  rw [bind, List.length_zipWith, hvalues.length_values hfilled, Nat.min_self, slotNames,
    length_slotNames, h.counted]

/-- An input comes from a match by one choice of values, since a lookup of it has one
result and the result holds the values. -/
theorem WellFormed.refilled_unique {values others : List Text} (hv : t.Refilled values input)
    (ho : t.Refilled others input) : others = values := by
  have hfound := (h.lookup?_eq_some_iff_refilled hfilled).mpr ⟨values, hv, rfl⟩
  have hother := (h.lookup?_eq_some_iff_refilled hfilled).mpr ⟨others, ho, rfl⟩
  have hbind : t.bind others = t.bind values := Option.some.inj (hother.symm.trans hfound)
  rw [← map_value_bind (ho.length_values hfilled), hbind,
    map_value_bind (hv.length_values hfilled)]

theorem WellFormed.hasBoundary_of_lookup? {before more : List Segment}
    (hseg : t.segments = before ++ more) {bs : Bindings} (hread : t.lookup? input = some bs) :
    Text.HasBoundary input (Text.byteSize (before.flatMap matched)) := by
  obtain ⟨values, ⟨hsizes, hspelled⟩, _⟩ := (h.lookup?_eq_some_iff_refilled hfilled).mp hread
  rw [hseg] at hsizes
  rw [← hspelled, Template.instantiate, Template.unfilled, hseg]
  refine hasBoundary_instantiate (fun s hs => hfilled s ?_) hsizes
  rw [hseg]
  exact List.mem_append_left _ hs

end

end Template

/-- In a match an input is looked up by sizes.  It is found if it comes from the match by
putting values of the same sizes in the place of the captured ones.  There is one choice
of them then, and it is what the lookup gives.  An input in which a value would end within
a character or behind the end is not found. -/
theorem Catalog.Registered.lookup?_refilled {c : Catalog} {ts : List Template}
    (h : c.Registered ts) {input : Text} {found : Template}
    (hf : (c.resolve input).1 = some found) (other : Text) :
    (∀ bs, found.lookup? other = some bs ↔
      ∃ values, found.Refilled values other ∧ bs = found.bind values) ∧
    (∀ values, found.Refilled values other →
      (∀ others, found.Refilled others other → others = values) ∧
        (found.bind values).map Binding.name = found.slotNames ∧
        (found.bind values).map Binding.value = values) ∧
    ∀ before written value more, found.segments = before ++ .filled written value :: more →
      ¬ Text.HasBoundary other (Text.byteSize (before.flatMap matched ++ value)) →
        found.lookup? other = none := by
  have hroute := (h.sound.represents.route_of_resolve? hf).1
  have hfilled := hroute.isFilled_of_isSlot
  have hwell : found.WellFormed := (h.sound.fit_of_resolve? hf).resolve_left fun hempty =>
    hroute.taken_ne_nil (congrArg Template.segments hempty)
  refine ⟨fun bs => hwell.lookup?_eq_some_iff_refilled hfilled, fun values hv => ?_,
    fun before written value more hseg hcut => ?_⟩
  · have hlength := hv.length_values hfilled
    exact ⟨fun others => hwell.refilled_unique hfilled hv, Template.map_name_bind hlength,
      Template.map_value_bind hlength⟩
  · rw [Option.eq_none_iff_forall_ne_some]
    intro bs hread
    have hseg' : found.segments = (before ++ [.filled written value]) ++ more := by
      rw [hseg, List.append_assoc]
      rfl
    have hboundary := hwell.hasBoundary_of_lookup? hfilled hseg' hread
    rw [List.flatMap_append, List.flatMap_singleton] at hboundary
    exact hcut hboundary

/-- Two characters of a byte each take the place of one of two bytes.  The last input has
a character of three bytes there, which would have to be cut. -/
theorem Catalog.Registered.lookup?_refilled_of_widths :
    let pages : Template := .counted
      [.start, .literal .plain ['/'], .slot ['<', 'u', '>'], .literal .plain ['/'],
        .slot ['<', 'p', '>'], .finish none]
    let c := (Catalog.new .braces .standard).insert pages
    let found : Template := .counted
      [.start, .literal .plain ['/'], .filled ['<', 'u', '>'] ['é'], .literal .plain ['/'],
        .filled ['<', 'p', '>'] ['日'], .finish none]
    (c.resolve ['/', 'é', '/', '日']).1 = some found ∧
      found.lookup? ['/', '/', 'a', '/', 'é', 'b'] =
        some [⟨['u'], ['/', 'a']⟩, ⟨['p'], ['é', 'b']⟩] ∧
      (∀ others, found.Refilled others ['/', '/', 'a', '/', 'é', 'b'] →
        others = [['/', 'a'], ['é', 'b']]) ∧
      ¬ Text.HasBoundary ['/', '日', '/', 'a', 'b'] 3 ∧
      found.lookup? ['/', '日', '/', 'a', 'b'] = none := by
  intro pages c found
  have hpages : Template.ofSegments pages.segments = .ok pages := rfl
  have hregistered : c.Registered [pages] := .insert (.new _ _) (.ofSegments hpages)
  have hf : (c.resolve ['/', 'é', '/', '日']).1 = some found := rfl
  have hvalues : found.Refilled [['/', 'a'], ['é', 'b']] ['/', '/', 'a', '/', 'é', 'b'] :=
    ⟨rfl, rfl⟩
  obtain ⟨hread, hunique, _⟩ :=
    hregistered.lookup?_refilled hf ['/', '/', 'a', '/', 'é', 'b']
  obtain ⟨_, _, hcut⟩ := hregistered.lookup?_refilled hf ['/', '日', '/', 'a', 'b']
  have hinside : ¬ Text.HasBoundary ['/', '日', '/', 'a', 'b'] 3 := by
    rintro ⟨front, rest, hsplit, hsize⟩
    have hfront : front ∈ List.inits ['/', '日', '/', 'a', 'b'] :=
      (List.mem_inits _ _).mpr ⟨rest, hsplit.symm⟩
    have hnone : ∀ t ∈ List.inits ['/', '日', '/', 'a', 'b'], Text.byteSize t ≠ 3 := by decide
    exact hnone front hfront hsize
  refine ⟨hf, (hread _).mpr ⟨_, hvalues, rfl⟩, (hunique _ hvalues).1, hinside, ?_⟩
  exact hcut [.start, .literal .plain ['/']] ['<', 'u', '>'] ['é'] _ rfl hinside

end RouteTemplates
