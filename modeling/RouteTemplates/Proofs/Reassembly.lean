import RouteTemplates.Proofs.Template.Assembly
import RouteTemplates.Proofs.Template.Key
import RouteTemplates.Proofs.Trie.Choice
import RouteTemplates.Proofs.Trie.Spine

/-!
# Templates put together again

However a template was made, its segments pass the checks that a row of segments has to
pass to be a template, but for the check that nothing is filled.  So the row of a
template that is not a match is assembled to the template itself, that of a match is
refused for its first slot, and with the captured values taken out it is assembled to
the template the match came from.

The first slot of a match is filled because all of its slots are.  This cannot be seen
from the rows that are well-formed, where slots may be filled one by one, and is shown of
the templates along their histories.
-/

namespace RouteTemplates

theorem findIdx?_eq_of_forall {α : Type} {p q : α → Bool} {l : List α}
    (h : ∀ a ∈ l, p a = q a) : l.findIdx? p = l.findIdx? q := by
  induction l with
  | nil => rfl
  | cons a l ih =>
    obtain ⟨ha, hl⟩ := List.forall_mem_cons.mp h
    rw [List.findIdx?_cons, List.findIdx?_cons, ha, ih hl]

namespace Segment

/-- The row has one start and one end, which frame it, no empty literal, and no two
slots side by side. -/
structure Regular (row : List Segment) : Prop where
  framed : ∃ body name, row = .start :: (body ++ [.finish name]) ∧
    ∀ s ∈ body, s ≠ .start ∧ s.isFinish = false
  literals : ∀ s ∈ row, ∀ text ∈ s.literal?, text ≠ []
  apart : row.IsChain fun s next => s.isSlot → next.isSlot = false

theorem Tail.exists_body {row : List Segment} (h : Tail row) :
    ∃ body name, row = body ++ [.finish name] ∧ ∀ s ∈ body, s ≠ .start ∧ s.isFinish = false := by
  induction h with
  | finish name => exact ⟨[], name, rfl, by simp⟩
  | @literal role text more _ _ ih =>
    obtain ⟨body, name, rfl, hbody⟩ := ih
    exact ⟨.literal role text :: body, name, rfl,
      List.forall_mem_cons.mpr ⟨⟨nofun, rfl⟩, hbody⟩⟩
  | @slot s more hs _ _ ih =>
    obtain ⟨body, name, rfl, hbody⟩ := ih
    have hstart : s ≠ .start := by
      rintro rfl
      cases hs
    exact ⟨s :: body, name, rfl,
      List.forall_mem_cons.mpr ⟨⟨hstart, not_isFinish_of_isSlot hs⟩, hbody⟩⟩

theorem Tail.isChain {row : List Segment} (h : Tail row) :
    row.IsChain fun s next => s.isSlot → next.isSlot = false := by
  induction h with
  | finish name => exact .singleton _
  | literal _ _ ih => exact List.isChain_cons.mpr ⟨fun _ _ => nofun, ih⟩
  | slot _ ha _ ih => exact List.isChain_cons.mpr ⟨fun next hnext _ => ha next hnext, ih⟩

/-- Either all slots of the row are filled or none is. -/
def Uniform (row : List Segment) : Prop :=
  (∀ s ∈ row, s.isFilled = false) ∨ ∀ s ∈ row, s.isSlot → s.isFilled

theorem isSlot_of_isFilled {s : Segment} (h : s.isFilled) : s.isSlot := by
  cases s with
  | filled _ _ => rfl
  | start | finish _ | literal _ _ | slot _ => cases h

theorem WrittenWith.not_isFilled {d : Delimiters} {s : Segment} (h : s.WrittenWith d) :
    s.isFilled = false := by
  by_contra hfilled
  rw [Bool.not_eq_false] at hfilled
  obtain ⟨name, rfl⟩ := h (isSlot_of_isFilled hfilled)
  cases hfilled

end Segment

open Segment

namespace Template

/-! ## Assembling well-formed rows -/

/-- In the body of a well-formed row the one defect there can be is a filled slot. -/
theorem bodyDefect?_eq {body : List Segment} {name : Option Text}
    (h : Tail (body ++ [.finish name])) (index : Nat) (afterSlot : Bool)
    (hopens : afterSlot → OpensApart (body ++ [.finish name])) :
    bodyDefect? index afterSlot body =
      (body.findIdx? isFilled).map fun i => .filledSlot (index + i) := by
  induction body generalizing index afterSlot with
  | nil => rfl
  | cons s body ih =>
    have hshift : ((body.findIdx? isFilled).map fun i => Defect.filledSlot (index + 1 + i)) =
        ((body.findIdx? isFilled).map (· + 1)).map fun i => .filledSlot (index + i) := by
      rw [Option.map_map]
      refine congrArg (Option.map · _) (funext fun i => ?_)
      show Defect.filledSlot (index + 1 + i) = .filledSlot (index + (i + 1))
      rw [Nat.add_assoc, Nat.add_comm 1 i]
    rw [List.findIdx?_cons]
    rw [List.cons_append] at h hopens
    cases s with
    | start => cases h with | slot hs => cases hs
    | finish first => exact absurd h (Node.not_tail_finish_append first name body)
    | filled written value => rfl
    | literal role text =>
      cases h with
      | slot hs => cases hs
      | literal ht hmore =>
        rw [bodyDefect?, if_neg ht, ih hmore (index + 1) false (by simp), hshift]
        rfl
    | slot written =>
      cases h with
      | slot _ ha hmore =>
        have hfirst : ¬ afterSlot = true := fun hafter => by
          cases hopens hafter (.slot written) rfl
        rw [bodyDefect?, if_neg hfirst, ih hmore (index + 1) true (fun _ => ha), hshift]
        rfl

theorem WellFormed.counted_eq {t : Template} (h : t.WellFormed) :
    Template.counted t.segments = t := by
  rw [Template.counted, ← h.counted]

/-- A well-formed row is assembled to its template, or refused for its first filled slot. -/
theorem WellFormed.ofSegments_eq {t : Template} (h : t.WellFormed) :
    ofSegments t.segments =
      (t.segments.findIdx? isFilled).elim (.ok t) fun i => .error (.filledSlot i) := by
  obtain ⟨more, hseg, htail⟩ := h.framed
  obtain ⟨body, name, rfl, _⟩ := htail.exists_body
  have hcounted : Template.counted (.start :: (body ++ [.finish name])) = t :=
    hseg ▸ h.counted_eq
  have hindex : (Segment.start :: (body ++ [.finish name])).findIdx? isFilled =
      (body.findIdx? isFilled).map (· + 1) := by
    rw [List.findIdx?_cons, List.findIdx?_append]
    cases body.findIdx? isFilled <;> rfl
  rw [hseg, hindex, ofSegments_framed, bodyDefect?_eq htail 1 false (by simp), hcounted]
  cases body.findIdx? isFilled with
  | none => rfl
  | some i => simp [Nat.add_comm]

theorem WellFormed.regular {t : Template} (h : t.WellFormed) : Regular t.segments := by
  obtain ⟨more, hseg, htail⟩ := h.framed
  rw [hseg]
  refine ⟨?_, ?_, ?_⟩
  · obtain ⟨body, name, rfl, hbody⟩ := htail.exists_body
    exact ⟨body, name, rfl, hbody⟩
  · exact List.forall_mem_cons.mpr ⟨nofun, fun s hs => (htail.inner s hs).2⟩
  · exact List.isChain_cons.mpr ⟨fun _ _ => nofun, htail.isChain⟩

theorem WellFormed.ofSegments_of_not_filled {t : Template} (h : t.WellFormed)
    (hopen : ∀ s ∈ t.segments, s.isFilled = false) : ofSegments t.segments = .ok t := by
  rw [h.ofSegments_eq, List.findIdx?_eq_none_iff.mpr hopen]
  rfl

theorem WellFormed.not_filled_of_ofSegments {t u : Template} (h : t.WellFormed)
    (hu : ofSegments t.segments = .ok u) : ∀ s ∈ t.segments, s.isFilled = false := by
  rw [h.ofSegments_eq] at hu
  cases hindex : t.segments.findIdx? isFilled with
  | none => exact List.findIdx?_eq_none_iff.mp hindex
  | some i =>
    rw [hindex] at hu
    cases hu

/-! ## All slots or none -/

theorem uniform_splitOn {t : Template} (h : Uniform t.segments) (separator : Text) :
    Uniform (t.splitOn separator).segments := by
  unfold Template.splitOn
  split
  · rename_i hsep
    have hsplit : ∀ s ∈ t.segments.flatMap (splitSegment separator hsep), s.isSlot →
        s ∈ t.segments := by
      intro s hs hslot
      obtain ⟨whole, hwhole, hs⟩ := List.mem_flatMap.mp hs
      rwa [eq_of_mem_splitSegment hsep hs hslot]
    refine h.imp (fun hopen s hs => ?_) fun hfilled s hs hslot => ?_
    · by_contra hfilled
      rw [Bool.not_eq_false] at hfilled
      have hnot := hopen s (hsplit s hs (isSlot_of_isFilled hfilled))
      rw [hfilled] at hnot
      cases hnot
    · exact hfilled s (hsplit s hs hslot) hslot
  · exact h

end Template

theorem Node.Route.isFilled_of_isSlot {trees : List Node} {input : Text} {taken : List Segment}
    (h : Route trees input taken) : ∀ s ∈ taken, s.isSlot → s.isFilled := by
  induction h with
  | finish => simp [isSlot, slotName?]
  | start _ _ ih | literal _ _ ih =>
    exact List.forall_mem_cons.mpr ⟨by simp [isSlot, slotName?], ih⟩
  | slotFinish => simp [isFilled, isSlot, slotName?]
  | slotLiteral _ _ _ _ ih =>
    refine List.forall_mem_cons.mpr ⟨fun _ => rfl, List.forall_mem_cons.mpr ⟨?_, ih⟩⟩
    simp [isSlot, slotName?]

theorem Template.Obtainable.uniform {t : Template} (h : t.Obtainable) : Uniform t.segments := by
  refine h.induction (motive := fun t => Uniform t.segments) ?empty ?compile ?ofSegments ?unfilled
    ?splitOn ?resolve
  case empty => exact .inl (by simp [Template.empty])
  case compile =>
    intro d name text t h
    exact .inl fun s hs => ((MadeWith.compile h).writtenWith s hs).not_isFilled
  case ofSegments =>
    intro segments t h
    have hwell := wellFormed_of_ofSegments h
    obtain rfl := eq_counted_of_ofSegments h
    exact .inl (hwell.not_filled_of_ofSegments h)
  case unfilled =>
    intro t _
    exact .inl (by simp [Template.unfilled])
  case splitOn =>
    intro t separator h
    exact uniform_splitOn h separator
  case resolve =>
    intro c ts input t h hf
    exact .inr (h.sound.represents.route_of_resolve? hf).1.isFilled_of_isSlot

/-- In a match a segment is filled if it is a slot. -/
theorem Segment.Uniform.findIdx?_isFilled {row : List Segment} (h : Uniform row)
    (hfilled : ∃ s ∈ row, s.isFilled) : row.findIdx? isFilled = some (row.findIdx isSlot) := by
  obtain ⟨s, hs, hsFilled⟩ := hfilled
  have hall : ∀ s ∈ row, s.isSlot → s.isFilled := h.resolve_left fun hopen => by
    rw [hopen s hs] at hsFilled
    cases hsFilled
  have heq : ∀ s ∈ row, s.isFilled = s.isSlot := fun s hs =>
    Bool.eq_iff_iff.mpr ⟨isSlot_of_isFilled, hall s hs⟩
  rw [findIdx?_eq_of_forall heq]
  exact List.findIdx?_eq_some_of_exists ⟨s, hs, isSlot_of_isFilled hsFilled⟩

/-- A template that was made in any way has no segments, or is framed by its only
markers, without empty literals and without slots side by side, and carries the number
of its slots.  Its row without captured values is assembled to the template without
them.  Its row as it stands is assembled to the template itself if nothing is filled, and
is refused for its first slot otherwise. -/
theorem Template.Obtainable.reassembled {t : Template} (h : t.Obtainable) :
    (t.segments = [] ∧ t.slotCount = 0) ∨
      (Regular t.segments ∧ t.slotCount = t.segments.countP isSlot ∧
        Template.ofSegments (t.segments.map Segment.unfilled) = .ok t.unfilled ∧
        (∀ u, Template.ofSegments t.segments = .ok u ↔
          u = t ∧ ∀ s ∈ t.segments, s.isFilled = false) ∧
        ((∃ s ∈ t.segments, s.isFilled) →
          Template.ofSegments t.segments = .error (.filledSlot (t.segments.findIdx isSlot)))) := by
  rcases h.fit with rfl | hwell
  · exact .inl ⟨rfl, rfl⟩
  refine .inr ⟨hwell.regular, hwell.counted, ?_, fun u => ⟨fun hu => ?_, ?_⟩, fun hfilled => ?_⟩
  · have hopen : ∀ s ∈ t.unfilled.segments, s.isFilled = false := by simp [Template.unfilled]
    exact hwell.unfilled.ofSegments_of_not_filled hopen
  · have hopen := hwell.not_filled_of_ofSegments hu
    have heq := (hwell.ofSegments_of_not_filled hopen).symm.trans hu
    exact ⟨(Except.ok.inj heq).symm, hopen⟩
  · rintro ⟨rfl, hopen⟩
    exact hwell.ofSegments_of_not_filled hopen
  · rw [hwell.ofSegments_eq, h.uniform.findIdx?_isFilled hfilled]
    rfl

/-- A match is split at the slashes: its literal gives three segments, and its slot keeps
the value, so the split match is refused for it. -/
theorem Template.Obtainable.reassembled_of_page :
    let pages : Template := .counted
      [.start, .literal .plain ['/', 'u', '/'], .slot ['<', 'u', '>'], .finish (some ['p'])]
    let c := (Catalog.new .braces .standard).insert pages
    let found : Template := .counted
      [.start, .literal .plain ['/', 'u', '/'], .filled ['<', 'u', '>'] ['é'], .finish (some ['p'])]
    let split : Template := .counted
      [.start, .literal .separator ['/'], .literal .plain ['u'], .literal .separator ['/'],
        .filled ['<', 'u', '>'] ['é'], .finish (some ['p'])]
    (c.resolve ['/', 'u', '/', 'é']).1 = some found ∧ found.splitOn ['/'] = split ∧
      Regular split.segments ∧ split.slotCount = 1 ∧
      Template.ofSegments (split.segments.map Segment.unfilled) = .ok split.unfilled ∧
      Template.ofSegments split.segments = .error (.filledSlot 4) := by
  intro pages c found split
  have hpages : Template.ofSegments pages.segments = .ok pages := rfl
  have hregistered : c.Registered [pages] := .insert (.new _ _) (.ofSegments hpages)
  have hf : (c.resolve ['/', 'u', '/', 'é']).1 = some found := rfl
  have hsplit : found.splitOn ['/'] = split := by decide +kernel
  have hobtainable : split.Obtainable := hsplit ▸ .splitOn ['/'] (.resolve hregistered hf)
  obtain ⟨hnil, _⟩ | ⟨hregular, hcount, hunfilled, _, hfilled⟩ := hobtainable.reassembled
  · cases hnil
  · have hslot : ∃ s ∈ split.segments, s.isFilled := by decide
    exact ⟨hf, hsplit, hregular, hcount, hunfilled, hfilled hslot⟩

end RouteTemplates
