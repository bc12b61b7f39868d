import RouteTemplates.Proofs.Resolution.MostSpecific
import RouteTemplates.Proofs.Trie.Course

/-!
# Empty values

A slot that would be filled with nothing is left to the siblings behind it, and all that
is looked at is whether there are any.  So a slot that was filled with nothing was the
last of its siblings.  The order of siblings makes more of this: a slot has ways on and
an end has none, so there was no end among the siblings, and the slots in front had at
least as many ways on.
-/

namespace RouteTemplates
namespace Node

open Segment

/-- A slot that was filled with nothing is the last of its siblings. -/
theorem Course.eq_concat_of_empty {trees : List Node} {written : Text}
    {more : List Segment} (h : Course trees (.filled written [] :: more)) :
    ∃ before n, trees = before ++ [n] ∧ n.label = .slot written := by
  obtain ⟨before, ⟨label, children⟩, after, rfl, hlabel, _, hfirst⟩ := h.exists_first
  obtain rfl : label = .slot written := hlabel
  rcases hfirst with ⟨input, d, _, htake, hsegments⟩ | ⟨input, found, _, hbound, _⟩
  · obtain ⟨value, below, _, hlast, rfl⟩ := take?_slot_eq_some_iff.mp htake
    obtain ⟨hvalue, _⟩ := List.cons.inj hsegments
    obtain rfl := List.isEmpty_iff.mp (hlast (Segment.filled.inj hvalue).2)
    exact ⟨before, _, rfl, rfl⟩
  · cases hbound

/-- Of the slots among some siblings, one that is last has the fewest ways on. -/
theorem Level.waysOn_last_le {rows : List (List Segment)} {path : List Segment}
    {before : List Node} {n : Node} (h : Level rows path (before ++ [n])) (hpath : path ≠ [])
    (hslot : n.label.isSlot) {other : Segment} (hother : other ∈ continuations rows path)
    (hotherSlot : other.isSlot) : waysOn rows path n.label ≤ waysOn rows path other := by
  obtain ⟨m, hm, rfl⟩ := h.exists_of_mem hother
  rcases List.mem_append.mp hm with hbefore | hlast
  · have hweight : ∀ {s : Segment}, s.isSlot → s.isLiteral = false ∧ s.weight = 0 := by
      intro s hs
      cases s with
      | slot _ | filled _ _ => exact ⟨rfl, rfl⟩
      | start | finish _ | literal _ _ => cases hs
    obtain ⟨hliteral, hzero⟩ := hweight hslot
    obtain ⟨hliteral', hzero'⟩ := hweight hotherSlot
    exact h.waysOn_le hm (by simp) (h.precedes_last hpath hbefore) (hliteral'.trans hliteral.symm)
      (hzero'.trans hzero.symm)
  · rw [List.mem_singleton.mp hlast]

end Node

open Segment Node

/-- Where a slot of what an input is resolved to was filled with nothing, no registered
template ends in the place of the slot, and of the slots that registered templates have
there it is one with the fewest ways on. -/
theorem Catalog.Registered.resolve_emptyValue {c : Catalog} {ts : List Template}
    (h : c.Registered ts) {input : Text} {found : Template}
    (hf : (c.resolve input).1 = some found) {before more : List Segment} {written : Text}
    (hseg : found.segments = before ++ .filled written [] :: more) :
    let rows := ts.map Template.row
    let path := before.map unfilled
    (∀ t ∈ ts, ∀ name, t.row ≠ path ++ [.finish name]) ∧
      .slot written ∈ continuations rows path ∧
      ∀ other, .slot other ∈ continuations rows path →
        waysOn rows path (.slot written) ≤ waysOn rows path (.slot other) := by
  intro rows path
  have hpath : path ≠ [] := mt List.map_eq_nil_iff.mp (h.before_ne_nil hf hseg (by simp))
  obtain ⟨siblings, n, hsiblings, hlabel⟩ := (h.course hf hseg).eq_concat_of_empty
  have hlevel : Level rows path (siblings ++ [n]) := hsiblings ▸ h.level path
  have hslot : n.label.isSlot := by rw [hlabel]; rfl
  refine ⟨fun t ht name hrow => ?_, hlabel ▸ hlevel.label_mem (by simp), fun other hother => ?_⟩
  · refine hlevel.finish_not_mem hpath hslot name (mem_continuations.mpr ⟨t.row, ?_, ?_⟩)
    · exact List.mem_map_of_mem ht
    · rw [hrow]
  · rw [← hlabel]
    exact hlevel.waysOn_last_le hpath hslot hother rfl

/-- Of two slots behind the literal, the one with fewer ways on is filled with nothing. -/
theorem Catalog.Registered.resolve_emptyValue_of_twoSlots :
    let rows : List (List Segment) := [
      [.start, .literal .plain ['/'], .slot ['<', 'y', '>'], .literal .plain ['.'], .finish none],
      [.start, .literal .plain ['/'], .slot ['<', 'x', '>'], .literal .plain ['.'], .finish none],
      [.start, .literal .plain ['/'], .slot ['<', 'x', '>'], .literal .plain [';'], .finish none]]
    let ts := rows.map Template.counted
    let c := ts.foldl Catalog.insert (.new .braces .standard)
    let path : List Segment := [.start, .literal .plain ['/']]
    let found : Template := .counted
      (path ++ [.filled ['<', 'y', '>'] [], .literal .plain ['.'], .finish none])
    (c.resolve ['/', '.']).1 = some found ∧
      (∀ t ∈ ts, ∀ name, t.row ≠ path ++ [.finish name]) ∧
      waysOn rows path (.slot ['<', 'y', '>']) = 1 ∧
      waysOn rows path (.slot ['<', 'y', '>']) ≤ waysOn rows path (.slot ['<', 'x', '>']) := by
  intro rows ts c path found
  have hregistered : c.Registered ts := Catalog.registered_foldl_ofSegments _ _ (by decide)
  have hf : (c.resolve ['/', '.']).1 = some found := rfl
  obtain ⟨hend, _, hfewest⟩ := hregistered.resolve_emptyValue hf rfl
  exact ⟨hf, hend, by decide, hfewest ['<', 'x', '>'] (by decide)⟩

end RouteTemplates
