import RouteTemplates.Proofs.History
import RouteTemplates.Proofs.Trie.Spine

/-!
# Resolving with a single body

Between several templates a choice is made and never taken back, so resolving can
miss what a lookup would find.  Where the registered templates differ in their
ends at most there is no choice, and resolving finds what a lookup finds.
-/

namespace RouteTemplates

open Segment

theorem Template.extractFrom_append_finish (body : List Segment) (a b : Option Text)
    (input : Text) :
    extractFrom (body ++ [.finish a]) input = extractFrom (body ++ [.finish b]) input := by
  have hvalue : ∀ body input,
      slotValue? (body ++ [.finish a]) input = slotValue? (body ++ [.finish b]) input := by
    intro body input
    cases body with
    | nil => rfl
    | cons s body => cases s <;> rfl
  induction body generalizing input with
  | nil => rfl
  | cons s body ih => cases s <;> simp only [List.cons_append, extractFrom, hvalue, ih]

theorem Trie.Represents.spine {t : Trie} {rows : List (List Segment)} (h : t.Represents rows)
    {body : List Segment} (hne : rows ≠ [])
    (hstart : body ≠ []) (hbody : ∀ row ∈ rows, row.dropLast = body) :
    Node.Spine body t.roots := by
  obtain ⟨row, hrow⟩ := List.exists_mem_of_ne_nil rows hne
  have hrowNe : row ≠ [] := by
    rintro rfl
    exact hstart (hbody [] hrow).symm
  refine Node.spine_of_leafPaths h.forest (fun hnone => ?_) fun q hq => ?_
  · have hpath := (h.mem_paths row).mpr ⟨hrowNe, row, hrow, List.prefix_refl row⟩
    rw [hnone] at hpath
    cases hpath
  · obtain ⟨hpath, hends⟩ := h.forest.mem_leafPathsOf.mp hq
    exact hbody q ((h.mem_paths_iff_mem hends).mp hpath)

/-- A row with the body of a template reads from an input what the template reads. -/
theorem Template.extractFrom_eq_of_dropLast_eq {row other : List Segment} (hr : Ends row)
    (ho : Ends other) (h : row.dropLast = other.dropLast) (input : Text) :
    extractFrom row input = extractFrom other input := by
  obtain ⟨body, a, rfl⟩ := hr.exists_append_finish
  obtain ⟨body', b, rfl⟩ := ho.exists_append_finish
  rw [List.dropLast_concat, List.dropLast_concat] at h
  rw [h]
  exact extractFrom_append_finish body' a b input

/-- Where all registered templates have the body of one template, whatever their
ends are called, an input is resolved if and only if the lookup in that template
succeeds, and the template it is resolved to reads the same values. -/
theorem Catalog.Registered.resolve_eq_lookup?_of_single_body {c : Catalog} {ts : List Template}
    (h : c.Registered ts) {p : Template} (hp : p.Obtainable) (hne : p.segments ≠ [])
    (hopen : ∀ s ∈ p.segments, s.isFilled = false) (hts : ts ≠ [])
    (hbody : ∀ t ∈ ts, t.row.dropLast = p.segments.dropLast) (input : Text) :
    ((c.resolve input).1.isSome ↔ (p.lookup? input).isSome) ∧
      ∀ found, (c.resolve input).1 = some found → found.lookup? input = p.lookup? input := by
  have hsound := h.sound
  have hw : p.WellFormed := hp.fit.resolve_left fun hempty => hne (by rw [hempty]; rfl)
  obtain ⟨more, hseg, htail⟩ := hw.framed
  obtain ⟨body, name, rfl⟩ := htail.ends.exists_append_finish
  have hdrop : p.segments.dropLast = .start :: body := by
    rw [hseg, ← List.cons_append, List.dropLast_concat]
  have hrowBody : ∀ row ∈ ts.map Template.row, row.dropLast = .start :: body := by
    intro row hrow
    obtain ⟨t, ht, rfl⟩ := List.mem_map.mp hrow
    rw [hbody t ht, hdrop]
  have hspine := hsound.represents.spine (by simpa using hts) (by simp) hrowBody
  -- Below the start, the descent and the extraction go on from the whole input.
  have harrived : (c.trie.descend input).arrived =
      (Template.extractFrom p.segments input).complete := by
    rw [Trie.descend, hseg]
    generalize c.trie.roots = roots at hspine
    cases hspine with
    | step hbelow =>
      have hbodyOpen : ∀ s ∈ body, s.isFilled = false := fun s hs => hopen s (by simp [hseg, hs])
      exact hbelow.arrived_descend htail hbodyOpen input
  refine ⟨?_, fun found hf => ?_⟩
  · rw [hw.lookup?_isSome_iff hopen, ← harrived]
    exact hsound.represents.resolve?_isSome_iff
  · obtain ⟨hroute, hmem, hcount⟩ := hsound.represents.route_of_resolve? hf
    rw [(hroute.lookup?_eq hcount).1, eq_comm, hw.lookup?_eq_some_iff_extractFrom hopen]
    refine Eq.trans ?_ hroute.extractFrom_unfilled
    refine Template.extractFrom_eq_of_dropLast_eq ?_ (ends_map_unfilled.mpr hroute.ends) ?_ input
    · rw [hseg]
      exact (ends_cons htail.ne_nil).mpr htail.ends
    · rw [hdrop]
      exact (hrowBody _ hmem).symm

/-- Two ends below a literal that closes the body. -/
theorem Catalog.Registered.resolve_eq_lookup?_of_single_body_of_feed :
    let feed (name : Option Text) : Template := .counted
      [.start, .slot ['<', 'u', '>'], .literal .plain ['.', 'x'], .finish name]
    let c := ((Catalog.new .braces .standard).insert (feed none)).insert (feed (some ['f']))
    ((feed none).lookup? ['é', '.', 'x']).isSome ∧ (c.resolve ['é', '.', 'x']).1.isSome ∧
      ∀ found, (c.resolve ['é', '.', 'x']).1 = some found →
        found.lookup? ['é', '.', 'x'] = (feed none).lookup? ['é', '.', 'x'] := by
  intro feed c
  have hfeed : ∀ name, (feed name).Obtainable := fun name => by
    have hof : Template.ofSegments (feed name).segments = .ok (feed name) := rfl
    exact .ofSegments hof
  have hregistered : c.Registered [feed none, feed (some ['f'])] :=
    .insert (.insert (.new _ _) (hfeed none)) (hfeed (some ['f']))
  have hread : ((feed none).lookup? ['é', '.', 'x']).isSome := rfl
  obtain ⟨hiff, hfound⟩ := hregistered.resolve_eq_lookup?_of_single_body (hfeed none)
    (by decide) (by decide) (by decide) (by decide) ['é', '.', 'x']
  exact ⟨hread, hiff.mpr hread, hfound⟩

end RouteTemplates
