import RouteTemplates.Proofs.History

/-!
# What resolving finds

Resolving an input and extracting from it are two ways to match.  They agree: a
template that an input is resolved to is one of those that were registered, its
segments cover the input, and looking the input up in either of the two reads the
values that were captured on the way.
-/

namespace RouteTemplates

open Segment

/-- A template an input is resolved to is one of the registered ones, and the only
one with its segments; its literals and captured values cover the input; and it
reads from the input what the registered template reads. -/
theorem Catalog.Registered.resolve_sound {c : Catalog} {ts : List Template}
    (h : c.Registered ts) {input : Text} {found : Template}
    (hf : (c.resolve input).1 = some found) :
    ∃ p ∈ ts.map Template.unfilled,
      (found.unfilled = p ∧ (∀ q ∈ ts.map Template.unfilled, q.segments = p.segments → q = p) ∧
        found.slotCount = p.slotCount ∧ found.name? = p.name? ∧ found.key = p.key) ∧
      found.segments.flatMap matched = input ∧
      ∃ bs, p.lookup? input = some bs ∧ found.lookup? input = some bs ∧
        ((c.resolve input).2.lookup found input).1 = some bs ∧
        bs.map Binding.name = p.slotNames ∧ bs.map Binding.value = captured found.segments := by
  have hsound := h.sound
  obtain ⟨hroute, hmem, hcount⟩ := hsound.represents.route_of_resolve? hf
  have hfound : found.unfilled.WellFormed := by
    have hw := (hsound.fit_of_resolve? hf).resolve_left (fun hempty => hroute.taken_ne_nil
      (congrArg Template.segments hempty))
    exact hw.unfilled
  -- Registered templates with one row are one template, since the row is counted.
  have hunique : ∀ q ∈ ts.map Template.unfilled,
      q.segments = found.unfilled.segments → q = found.unfilled := by
    intro q hq heq
    obtain ⟨t, ht, rfl⟩ := List.mem_map.mp hq
    rcases hsound.fit t ht with rfl | ht
    · exact absurd heq.symm hfound.segments_ne_nil
    · exact ht.unfilled.eq_of_segments_eq hfound heq
  obtain ⟨t, ht, hrow⟩ := List.mem_map.mp hmem
  have hregistered : found.unfilled ∈ ts.map Template.unfilled := by
    have hin : t.unfilled ∈ ts.map Template.unfilled := List.mem_map_of_mem ht
    rwa [hunique _ hin hrow] at hin
  obtain ⟨hlookup, hlookupUnfilled⟩ := hroute.lookup?_eq hcount
  have hnames : found.unfilled.slotNames = found.slotNames := slotNames_map_unfilled _
  have hlength : (captured found.segments).length = found.slotNames.length := by
    rw [hroute.length_captured, Template.slotNames, length_slotNames]
  refine ⟨found.unfilled, hregistered, ⟨rfl, hunique, rfl, ?_, ?_⟩, hroute.flatMap_matched,
    _, hlookupUnfilled, hlookup, hlookup, ?_, ?_⟩
  · simp
  · simp
  · rw [hnames]
    exact Template.map_name_bind hlength
  · exact Template.map_value_bind hlength

/-- A page of a user, where the templates of users and of their pages share all but
their ends. -/
theorem Catalog.Registered.resolve_sound_of_page :
    let users : Template := .counted
      [.start, .literal .plain ['/'], .slot ['<', 'u', '>'], .finish none]
    let pages : Template := .counted
      [.start, .literal .plain ['/'], .slot ['<', 'u', '>'], .literal .plain ['/'],
        .slot ['<', 'p', '>'], .finish (some ['p'])]
    let found : Template := .counted
      [.start, .literal .plain ['/'], .filled ['<', 'u', '>'] ['é'], .literal .plain ['/'],
        .filled ['<', 'p', '>'] ['a', '/'], .finish (some ['p'])]
    let c := ((Catalog.new .braces .standard).insert users).insert pages
    (c.resolve ['/', 'é', '/', 'a', '/']).1 = some found ∧
      ∃ p ∈ [users, pages], found.unfilled = p ∧
        ∃ bs, p.lookup? ['/', 'é', '/', 'a', '/'] = some bs ∧
          bs.map Binding.value = [['é'], ['a', '/']] := by
  intro users pages found c
  have husers : Template.ofSegments users.segments = .ok users := rfl
  have hpages : Template.ofSegments pages.segments = .ok pages := rfl
  have hregistered : c.Registered [users, pages] :=
    .insert (.insert (.new _ _) (.ofSegments husers)) (.ofSegments hpages)
  have hf : (c.resolve ['/', 'é', '/', 'a', '/']).1 = some found := rfl
  obtain ⟨p, hp, ⟨heq, _⟩, _, bs, hread, _, _, _, hvalues⟩ := hregistered.resolve_sound hf
  exact ⟨hf, p, hp, heq, bs, hread, hvalues⟩

end RouteTemplates
