import RouteTemplates.Proofs.Resolution.MostSpecific

/-!
# Exact literals

A route that is a single literal is found for the text of the literal, whatever else is
registered.  Two things could lead the descent astray.  At the first level it could take
another literal, but the longest one in front of the input is taken, and none is longer
than the input or differs from it with the same length.  Below the literal nothing is
left of the input, and a slot stands before the end.  The slot could only be filled with
nothing, which it never is with an end behind it.
-/

namespace RouteTemplates
namespace Node

open Segment

variable {rows : List (List Segment)} {path : List Segment} {trees : List Node}
  {text : Text} {name : Option Text}

/-- Where a row ends and nothing is left of the input, an end is taken. -/
theorem Level.exists_arrival (h : Level rows path trees) (hpath : path ≠ [])
    (hends : .finish name ∈ continuations rows path) :
    ∃ other, .finish other ∈ continuations rows path ∧
      descend trees [] = .arrival (.finish other) := by
  obtain ⟨⟨_, children⟩, hn, rfl⟩ := h.exists_of_mem hends
  have htake : ∀ last, ((Node.mk (.finish name) children).take? last []).isSome := by
    intro last
    rw [take?_finish_eq_some_iff.mpr ⟨rfl, rfl⟩]
    rfl
  obtain ⟨before, ⟨s, below⟩, after, rfl, _, hm⟩ := exists_take?_of_mem hn htake
  have hin : Node.mk s below ∈ before ++ Node.mk s below :: after := by simp
  have hinner := h.inner hpath hin
  cases s with
  | finish other => exact ⟨other, h.label_mem hin, (take?_finish_eq_some_iff.mp hm).2⟩
  | literal role front =>
    obtain ⟨rest, hinput, _⟩ := take?_literal_eq_some_iff.mp hm
    have hfront : front = [] := (List.append_eq_nil_iff.mp hinput.symm).1
    exact absurd hfront (hinner.2 front rfl)
  | slot written =>
    obtain ⟨value, below', hbounded, hlast, _⟩ := take?_slot_eq_some_iff.mp hm
    -- The slot would be filled with nothing, so it is the last sibling.
    have hvalue : value = [] := by
      obtain ⟨_, ⟨label, children'⟩, _, _, _, hbound⟩ := exists_bound?_of_boundedBy? hbounded
      cases label with
      | finish _ => exact (bound?_finish_eq_some_iff.mp hbound).1
      | literal _ mark =>
        obtain ⟨rest, hinput, _⟩ := bound?_literal_eq_some_iff.mp hbound
        exact (List.append_eq_nil_iff.mp hinput.symm).1
      | start | slot _ | filled _ _ => cases hbound
    obtain rfl : after = [] := List.isEmpty_iff.mp (hlast hvalue)
    exact absurd hends (h.finish_not_mem hpath rfl name)
  | start => exact absurd rfl hinner.1
  | filled _ _ => cases hm

/-- The literal that is all of the input is taken before any other sibling. -/
theorem Level.exists_descend_eq_cons (h : Level rows path trees) (hpath : path ≠ [])
    (hliteral : .literal .plain text ∈ continuations rows path) :
    ∃ children, Level rows (path ++ [.literal .plain text]) children ∧
      descend trees text = (descend children []).cons (.literal .plain text) := by
  obtain ⟨⟨_, children⟩, hn, rfl⟩ := h.exists_of_mem hliteral
  have hrest : text = text ++ [] := (List.append_nil text).symm
  have htake : ∀ last, ((Node.mk (.literal .plain text) children).take? last text).isSome := by
    intro last
    rw [take?_literal_eq_some_iff.mpr ⟨[], hrest, fun _ => rfl, rfl⟩]
    rfl
  obtain ⟨before, m, after, rfl, hbefore, hm⟩ := exists_take?_of_mem hn htake
  have hmost := h.mostSpecific_of_take? hpath hbefore (by rw [hm]; rfl)
  have htakeable : Takeable rows path text (.literal .plain text) :=
    ⟨hliteral, text, [], rfl, hrest, fun _ => rfl⟩
  have hlabel : m.label = .literal .plain text := by
    obtain ⟨longest, hlongest, hle, _⟩ := hmost.plain text htakeable
    have htaken : Takeable rows path text (.literal .plain longest) := by
      rw [← hlongest]
      exact hmost.possible_of_isLiteral (by rw [hlongest]; rfl)
    have hge : Text.byteSize longest ≤ Text.byteSize text := by
      obtain ⟨_, _, rest, ⟨⟩, hinput, _⟩ := htaken
      have hsize := congrArg Text.byteSize hinput
      rw [Text.byteSize_append] at hsize
      omega
    rw [hlongest, htakeable.eq_of_byteSize_eq htaken (Nat.le_antisymm hle hge)]
  have hin : m ∈ before ++ m :: after := by simp
  have hbelow := h.below hin
  obtain ⟨s, below⟩ := m
  obtain rfl : s = .literal .plain text := hlabel
  obtain ⟨rest, hinput, _, hdescend⟩ := take?_literal_eq_some_iff.mp hm
  obtain rfl : rest = [] := List.append_right_eq_self.mp hinput.symm
  exact ⟨below, hbelow, hdescend⟩

end Node

open Segment

/-- If a template that is one plain literal is registered, then the text of the literal
is resolved to such a template, whatever templates are registered beside it and in
whatever order. -/
theorem Catalog.Registered.resolve_literal {c : Catalog} {ts : List Template}
    (h : c.Registered ts) {text : Text} {name : Option Text}
    (hrow : [.start, .literal .plain text, .finish name] ∈ ts.map Template.row) :
    ∃ other, [.start, .literal .plain text, .finish other] ∈ ts.map Template.row ∧
      (c.resolve text).1 = some (.counted [.start, .literal .plain text, .finish other]) := by
  obtain ⟨children, hlevel, hresolve⟩ := h.exists_level
  have hliteral : .literal .plain text ∈ continuations (ts.map Template.row) [.start] :=
    mem_continuations.mpr ⟨_, hrow, [.finish name], rfl⟩
  have hends : .finish name ∈
      continuations (ts.map Template.row) ([.start] ++ [.literal .plain text]) :=
    mem_continuations.mpr ⟨_, hrow, [], rfl⟩
  obtain ⟨below, hbelow, hdescend⟩ := hlevel.exists_descend_eq_cons (by simp) hliteral
  obtain ⟨other, hother, harrival⟩ := hbelow.exists_arrival (by simp) hends
  obtain ⟨row, hmem, hprefix⟩ := mem_continuations.mp hother
  have hisRow : IsRow row := by
    refine (hlevel.isRow row hmem).resolve_left ?_
    rintro rfl
    simp at hprefix
  have heq : [.start, .literal .plain text, .finish other] = row :=
    hisRow.eq_of_isPrefix hprefix ⟨.finish other, rfl, rfl⟩
  refine ⟨other, heq ▸ hmem, ?_⟩
  rw [hresolve, hdescend, harrival]
  rfl

/-- Beside the literal stand a longer one and one of the same length, a shorter one with
a slot behind it, a separator with the same text and a slot.  Below it stand a slot, a
further literal and a second end. -/
theorem Catalog.Registered.resolve_literal_of_crowd :
    let rows : List (List Segment) := [
      [.start, .slot ['<', 'z', '>'], .finish none],
      [.start, .literal .separator ['a', 'é'], .finish none],
      [.start, .literal .plain ['a'], .slot ['<', 'y', '>'], .finish none],
      [.start, .literal .plain ['é', 'a'], .finish none],
      [.start, .literal .plain ['a', 'é', 'b'], .finish none],
      [.start, .literal .plain ['a', 'é'], .slot ['<', 'x', '>'], .finish none],
      [.start, .literal .plain ['a', 'é'], .finish (some ['n'])],
      [.start, .literal .plain ['a', 'é'], .literal .plain ['b'], .finish none],
      [.start, .literal .plain ['a', 'é'], .finish none]]
    let ts := rows.map Template.counted
    let c := ts.foldl Catalog.insert (.new .braces .standard)
    [.start, .literal .plain ['a', 'é'], .finish none] ∈ ts.map Template.row ∧
      ∃ other, [.start, .literal .plain ['a', 'é'], .finish other] ∈ ts.map Template.row ∧
        (c.resolve ['a', 'é']).1 =
          some (.counted [.start, .literal .plain ['a', 'é'], .finish other]) := by
  intro rows ts c
  have hregistered : c.Registered ts := Catalog.registered_foldl_ofSegments _ _ (by decide)
  have hrow : [.start, .literal .plain ['a', 'é'], .finish none] ∈ ts.map Template.row := by
    decide
  exact ⟨hrow, hregistered.resolve_literal hrow⟩

end RouteTemplates
