import RouteTemplates.Proofs.Trie.Course
import RouteTemplates.Proofs.Trie.FirstEnd

/-!
# Templates that differ in their names

Templates with the same segments in front of their ends match the same inputs, and an
input is resolved to the one that was registered first.  The end is taken in one of two
ways, when nothing is left of the input or as what bounds the value of a slot.  Either
way each end of the level would do, so the first one is taken.
-/

namespace RouteTemplates
namespace Node

open Segment

/-- Each end could be taken in place of the one that was, so that one is the first. -/
theorem Course.firstEnd?_eq {trees : List Node} {name : Option Text}
    (h : Course trees [.finish name]) : firstEnd? trees = some (.finish name) := by
  obtain ⟨before, ⟨label, children⟩, after, rfl, hlabel, _, hfirst⟩ := h.exists_first
  obtain rfl : label = .finish name := hlabel
  have hbefore : ∀ s ∈ before.map Node.label, ¬ s.isFinish := by
    intro s hs hfinish
    obtain ⟨⟨s, below⟩, hm, rfl⟩ := List.mem_map.mp hs
    cases s with
    | finish other =>
      rcases hfirst with ⟨input, d, hnone, htake, _⟩ | ⟨input, found, hnone, _⟩
      · obtain ⟨hinput, _⟩ := take?_finish_eq_some_iff.mp htake
        have hpassed := hnone _ hm
        rw [take?, if_pos hinput] at hpassed
        cases hpassed
      · cases hnone _ hm
    | start | literal _ _ | slot _ | filled _ _ => cases hfinish
  rw [firstEnd?, List.map_append, List.find?_append, List.find?_eq_none.mpr hbefore,
    Option.none_or]
  rfl

end Node

open Segment Node

/-- Of the registered templates that have the segments of what an input is resolved to,
as far as their ends, the first that was registered gives it its end. -/
theorem Catalog.Registered.resolve_firstName {c : Catalog} {ts : List Template}
    (h : c.Registered ts) {input : Text} {found : Template}
    (hf : (c.resolve input).1 = some found) :
    ∃ t, ts.find? (fun u => u.row.dropLast = found.row.dropLast) = some t ∧
      found.row = t.row ∧ found.name? = t.name? := by
  obtain ⟨_, hrow⟩ := h.isRow_of_resolve hf
  obtain ⟨body, name, hbody⟩ := (ends_map_unfilled.mp hrow.ends).exists_append_finish
  have hpath : found.row = body.map unfilled ++ [.finish name] := by
    rw [Template.row, Template.unfilled, hbody, List.map_append]
    rfl
  have hpathNe : body.map unfilled ≠ [] :=
    mt List.map_eq_nil_iff.mp (h.before_ne_nil hf hbody (by simp))
  have hfirst := (h.course hf hbody).firstEnd?_eq
  rw [h.firstEnd?_eq, List.findSome?_map] at hfirst
  obtain ⟨before, t, after, rfl, hend, hbefore⟩ := List.findSome?_eq_some_iff.mp hfirst
  have ht : found.row = t.row := hpath.trans (append_of_endBehind? hend)
  refine ⟨t, List.find?_eq_some_iff_append.mpr ⟨by simp [ht], before, after, rfl, ?_⟩, ht, ?_⟩
  · intro u hu
    have hne := dropLast_ne_of_endBehind? hpathNe (hbefore u hu)
    simpa [hpath] using hne
  · have hsegments : found.unfilled.segments = t.unfilled.segments := ht
    rw [← Template.name?_unfilled found, ← Template.name?_unfilled t, Template.name?,
      Template.name?, hsegments]

/-- Two pages have two names each, and what was registered last of all has moved the
slot and the ends behind a literal.  One end is taken behind the other segments, the
other one bounds the value of the slot. -/
theorem Catalog.Registered.resolve_firstName_of_pages :
    let slash : Segment := .literal .plain ['/']
    let rows : List (List Segment) := [
      [.start, slash, .finish (some ['z'])],
      [.start, slash, .slot ['<', 'p', '>'], .finish none],
      [.start, slash, .finish (some ['a'])],
      [.start, slash, .slot ['<', 'p', '>'], .finish (some ['p'])],
      [.start, slash, .finish none],
      [.start, slash, .literal .plain ['a', 'b'], .finish none]]
    let ts := rows.map Template.counted
    let c := ts.foldl Catalog.insert (.new .braces .standard)
    let home : Template := .counted [.start, slash, .finish (some ['z'])]
    let page : Template := .counted [.start, slash, .filled ['<', 'p', '>'] ['é'], .finish none]
    ((c.resolve ['/']).1 = some home ∧
      ∃ t, ts.find? (fun u => u.row.dropLast = home.row.dropLast) = some t ∧
        home.row = t.row ∧ home.name? = t.name?) ∧
    (c.resolve ['/', 'é']).1 = some page ∧
      ∃ t, ts.find? (fun u => u.row.dropLast = page.row.dropLast) = some t ∧
        page.row = t.row ∧ page.name? = t.name? := by
  intro slash rows ts c home page
  have hregistered : c.Registered ts := Catalog.registered_foldl_ofSegments _ _ (by decide)
  have hhome : (c.resolve ['/']).1 = some home := by decide
  have hpage : (c.resolve ['/', 'é']).1 = some page := by decide
  exact ⟨⟨hhome, hregistered.resolve_firstName hhome⟩, hpage,
    hregistered.resolve_firstName hpage⟩

end RouteTemplates
