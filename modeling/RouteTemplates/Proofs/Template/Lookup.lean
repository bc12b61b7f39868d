import RouteTemplates.Proofs.History

/-!
# What a lookup finds

An input is looked up by reading it once from left to right, with no look at
anything but the literal behind the slot at hand.  What this finds can be said
without reading: the input is the template with values put in place of its slots,
and each value ends where the literal behind it is met for the first time.
-/

namespace RouteTemplates

open Segment

/-- A lookup in a template without captured values succeeds on its settled
instances only, finds the one choice of values that gives the input, and so takes
back any settled choice of values from the text they give. -/
theorem Template.Obtainable.lookup?_settled {t : Template} (h : t.Obtainable)
    (hne : t.segments ≠ []) (hopen : ∀ s ∈ t.segments, s.isFilled = false) :
    (∀ input bs, t.lookup? input = some bs ↔
      ∃ values, t.Instance values input ∧ bs = t.bind values) ∧
    (∀ input values, t.Instance values input →
      (∀ others, t.Instance others input → others = values) ∧
        (t.bind values).map Binding.name = t.slotNames ∧
        (t.bind values).map Binding.value = values ∧ (t.bind values).length = t.slotCount) ∧
    ∀ values, Settled t.segments values →
      t.lookup? (t.instantiate values) = some (t.bind values) := by
  have hw : t.WellFormed := h.fit.resolve_left fun hempty => hne (by rw [hempty]; rfl)
  refine ⟨fun input bs => hw.lookup?_eq_some_iff_instance hopen, fun input values hi => ?_,
    fun values hs => ?_⟩
  · have hlength := hi.length_values hopen
    refine ⟨fun others => hw.instance_unique hopen hi, map_name_bind hlength,
      map_value_bind hlength, ?_⟩
    rw [bind, List.length_zipWith, hlength, Nat.min_self, slotNames, length_slotNames, hw.counted]
  · exact (hw.lookup?_eq_some_iff_instance hopen).mpr ⟨values, ⟨rfl, hs⟩, rfl⟩

/-- The value may hold the first half of the literal that ends it. -/
theorem Template.Obtainable.lookup?_settled_of_dots :
    let t : Template := .counted
      [.start, .slot ['<', 'n', '>'], .literal .plain ['.', '.'], .slot ['<', 'x', '>'],
        .finish none]
    t.lookup? ['é', '.', 'b', '.', '.', '.'] =
      some (t.bind [['é', '.', 'b'], ['.']]) := by
  intro t
  have ht : Template.ofSegments t.segments = .ok t := rfl
  have hcut : Text.cutAt? ['.', '.'] ['é', '.', 'b', '.', '.'] = some (['é', '.', 'b'], []) := rfl
  obtain ⟨_, _, hback⟩ := (Template.Obtainable.ofSegments ht).lookup?_settled (by decide)
    (by decide)
  refine hback [['é', '.', 'b'], ['.']] (.cons ?_ (.cons ?_ .nil))
  · rintro mark ⟨⟩
    exact Text.firstAfter_of_cutAt? hcut
  · rintro mark ⟨⟩

end RouteTemplates
