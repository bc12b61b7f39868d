import RouteTemplates.Template.Compilation
import RouteTemplates.Template.Separators
import RouteTemplates.Template.Validation

/-!
# Well-formed templates

A well-formed template is a start and then a row that ends with the only end,
has no empty literal, and never has two slots side by side; the count it carries
is that of its slots.  Compiling and assembling give such templates only, and
splitting literals and taking captured values out keep them so.

The rows are described from the front, as the extraction and the trie read
them: each proof about what they do is an induction on `Tail`.
-/

namespace RouteTemplates
namespace Segment

/-- The rows that may stand behind the start of a template. -/
inductive Tail : List Segment → Prop
  | finish (name : Option Text) : Tail [.finish name]
  | literal {role : LiteralRole} {text : Text} {more : List Segment} :
      text ≠ [] → Tail more → Tail (.literal role text :: more)
  | slot {s : Segment} {more : List Segment} :
      s.isSlot → (∀ next ∈ more.head?, next.isSlot = false) → Tail more → Tail (s :: more)

/-- The row does not open with a slot, so a slot may stand before it. -/
def OpensApart (row : List Segment) : Prop := ∀ s ∈ row.head?, s.isSlot = false

theorem Tail.plainOf_append {more : List Segment} (text : Text) (h : Tail more) :
    Tail (plainOf text ++ more) := by
  by_cases ht : text = []
  · simpa [plainOf, ht] using h
  · simpa [plainOf, ht] using Tail.literal ht h

theorem opensApart_plainOf_append {text : Text} (more : List Segment) (ht : text ≠ []) :
    OpensApart (plainOf text ++ more) := by
  simp [OpensApart, plainOf, ht, isSlot, slotName?]

theorem opensApart_finish (name : Option Text) : OpensApart [.finish name] := by
  simp [OpensApart, isSlot, slotName?]

theorem opensApart_literal (role : LiteralRole) (text : Text) (more : List Segment) :
    OpensApart (.literal role text :: more) := by
  simp [OpensApart, isSlot, slotName?]

theorem opensApart_map_unfilled {row : List Segment} :
    OpensApart (row.map unfilled) ↔ OpensApart row := by
  cases row <;> simp [OpensApart]

theorem Tail.of_map_unfilled {row : List Segment} (h : Tail (row.map unfilled)) : Tail row := by
  generalize himage : row.map unfilled = image at h
  induction h generalizing row with
  | finish name =>
    obtain ⟨s, rfl, hs⟩ := List.map_eq_singleton_iff.mp himage
    cases s <;> cases hs
    exact .finish name
  | literal ht _ ih =>
    obtain ⟨s, more, rfl, hs, hm⟩ := List.map_eq_cons_iff.mp himage
    cases s <;> cases hs
    exact .literal ht (ih hm)
  | slot hs ha _ ih =>
    obtain ⟨s, more, rfl, rfl, rfl⟩ := List.map_eq_cons_iff.mp himage
    exact .slot (by simpa using hs) (opensApart_map_unfilled.mp ha) (ih rfl)

theorem tail_map_unfilled {row : List Segment} : Tail (row.map unfilled) ↔ Tail row := by
  refine ⟨Tail.of_map_unfilled, fun h => ?_⟩
  induction h with
  | finish name => exact .finish name
  | literal ht _ ih => exact .literal ht ih
  | slot hs ha _ ih =>
    exact .slot (by simpa using hs) (opensApart_map_unfilled.mpr ha) ih

def Ends (row : List Segment) : Prop := ∃ last ∈ row.getLast?, last.isFinish

theorem not_ends_nil : ¬ Ends [] := by
  rintro ⟨last, hlast, _⟩
  cases hlast

theorem ends_singleton {s : Segment} : Ends [s] ↔ s.isFinish := by
  simp [Ends]

theorem ends_cons {s : Segment} {row : List Segment} (h : row ≠ []) :
    Ends (s :: row) ↔ Ends row := by
  obtain ⟨t, row, rfl⟩ := List.exists_cons_of_ne_nil h
  simp [Ends]

theorem ends_map_unfilled {row : List Segment} : Ends (row.map unfilled) ↔ Ends row := by
  cases h : row.getLast? <;> simp [Ends, List.getLast?_map, h]

/-- A row ends where its end stands. -/
theorem Tail.eq_of_isPrefix {row path : List Segment} (h : Tail row) (hp : path <+: row)
    (hends : Ends path) : path = row := by
  induction h generalizing path with
  | finish name =>
    cases path with
    | nil => exact absurd hends not_ends_nil
    | cons s path =>
      obtain ⟨rfl, hrest⟩ := List.cons_prefix_cons.mp hp
      rw [List.prefix_nil.mp hrest]
  | literal _ _ ih =>
    cases path with
    | nil => exact absurd hends not_ends_nil
    | cons s path =>
      obtain ⟨rfl, hrest⟩ := List.cons_prefix_cons.mp hp
      by_cases hnil : path = []
      · subst hnil
        cases ends_singleton.mp hends
      · rw [ih hrest ((ends_cons hnil).mp hends)]
  | slot hs _ _ ih =>
    cases path with
    | nil => exact absurd hends not_ends_nil
    | cons s path =>
      obtain ⟨rfl, hrest⟩ := List.cons_prefix_cons.mp hp
      by_cases hnil : path = []
      · subst hnil
        cases (not_isFinish_of_isSlot hs).symm.trans (ends_singleton.mp hends)
      · rw [ih hrest ((ends_cons hnil).mp hends)]

theorem Tail.ne_nil {row : List Segment} (h : Tail row) : row ≠ [] := by
  cases h <;> simp

theorem Tail.ends {row : List Segment} (h : Tail row) : Ends row := by
  induction h with
  | finish name => exact ends_singleton.mpr rfl
  | literal _ hm ih | slot _ _ hm ih => exact (ends_cons hm.ne_nil).mpr ih

theorem Ends.exists_append_finish {row : List Segment} (h : Ends row) :
    ∃ body name, row = body ++ [.finish name] := by
  obtain ⟨last, hlast, hfinish⟩ := h
  obtain ⟨body, rfl⟩ := List.getLast?_eq_some_iff.mp hlast
  cases last with
  | finish name => exact ⟨body, name, rfl⟩
  | start | literal _ _ | slot _ | filled _ _ => cases hfinish

end Segment

namespace Template

open Segment

structure WellFormed (t : Template) : Prop where
  framed : ∃ more, t.segments = .start :: more ∧ Tail more
  counted : t.slotCount = t.segments.countP Segment.isSlot

theorem WellFormed.segments_ne_nil {t : Template} (h : t.WellFormed) : t.segments ≠ [] := by
  obtain ⟨more, hseg, _⟩ := h.framed
  simp [hseg]

theorem WellFormed.eq_of_segments_eq {t u : Template} (ht : t.WellFormed) (hu : u.WellFormed)
    (h : t.segments = u.segments) : t = u := by
  have hcount : t.slotCount = u.slotCount := by rw [ht.counted, hu.counted, h]
  cases t
  cases u
  simp_all

/-! ## Compiling -/

/-- What a scan finds may stand behind the start, and behind a slot as well if
the scan has a literal in hand or has just closed a slot. -/
theorem scan_tail (d : Delimiters) (name : Option Text) (text : Text) :
    (∀ position afterSlot literal segments,
      scanLiteral d position afterSlot literal text = .ok segments →
        Tail (segments ++ [.finish name]) ∧
          (afterSlot ∨ literal ≠ [] → OpensApart (segments ++ [.finish name]))) ∧
    (∀ position opened literal slot segments,
      scanName d position opened literal slot text = .ok segments →
        Tail (segments ++ [.finish name]) ∧
          (literal ≠ [] → OpensApart (segments ++ [.finish name]))) := by
  induction text with
  | nil =>
    refine ⟨fun position afterSlot literal segments h => ?_, fun _ _ _ _ _ h => nomatch h⟩
    obtain rfl : plainOf literal.reverse = segments := by simpa [scanLiteral] using h
    refine ⟨(Tail.finish name).plainOf_append _, fun _ => ?_⟩
    by_cases hl : literal = []
    · simpa [plainOf, hl] using opensApart_finish name
    · exact opensApart_plainOf_append _ (by simpa using hl)
  | cons c text ih =>
    obtain ⟨ihLiteral, ihName⟩ := ih
    constructor
    · intro position afterSlot literal segments h
      simp only [scanLiteral] at h
      split at h
      · split at h
        · cases h
        · rename_i hapart
          obtain ⟨htail, hopens⟩ := ihName _ _ _ _ _ h
          refine ⟨htail, fun hor => hopens ?_⟩
          rintro rfl
          exact hapart ⟨by simpa using hor, rfl⟩
      · obtain ⟨htail, hopens⟩ := ihLiteral _ _ _ _ h
        exact ⟨htail, fun _ => hopens (.inr (by simp))⟩
    · intro position opened literal slot segments h
      simp only [scanName] at h
      split at h
      · obtain ⟨htail, hopens⟩ := ihName _ _ _ _ _ h
        exact ⟨htail, fun hl => hopens (by simp)⟩
      · split at h
        · split at h
          · cases h
          · cases hscan : scanLiteral d (position + c.utf8Size) true [] text with
            | error e => simp [hscan, Except.map] at h
            | ok behind =>
              obtain ⟨htail, hopens⟩ := ihLiteral _ _ _ _ hscan
              obtain rfl : plainOf literal.reverse ++
                  slotNamed d.opening d.closing slot.reverse :: behind = segments := by
                simpa [hscan, Except.map] using h
              have hslot : Tail (slotNamed d.opening d.closing slot.reverse ::
                  (behind ++ [.finish name])) := .slot rfl (hopens (.inl rfl)) htail
              rw [List.append_assoc]
              exact ⟨hslot.plainOf_append _,
                fun hl => opensApart_plainOf_append _ (by simpa using hl)⟩
        · exact ihName _ _ _ _ _ h

theorem wellFormed_of_compile {d : Delimiters} {name text : Text} {t : Template}
    (h : compile d name text = .ok t) : t.WellFormed := by
  simp only [compile] at h
  split at h
  · cases h
  · cases hscan : scanLiteral d 0 false [] text with
    | error e => simp [hscan, Except.map] at h
    | ok body =>
      obtain rfl : counted (.start :: (body ++ [.finishNamed name])) = t := by
        simpa [hscan, Except.map] using h
      exact ⟨⟨_, rfl, ((scan_tail d _ text).1 _ _ _ _ hscan).1⟩, rfl⟩

/-! ## Assembling -/

theorem tail_of_bodyDefect? {row : List Segment} {index : Nat} {afterSlot : Bool}
    (h : bodyDefect? index afterSlot row = none) (name : Option Text) :
    Tail (row ++ [.finish name]) ∧ (afterSlot → OpensApart (row ++ [.finish name])) := by
  induction row generalizing index afterSlot with
  | nil => exact ⟨.finish name, fun _ => opensApart_finish name⟩
  | cons s row ih =>
    cases s with
    | start | finish _ | filled _ _ => cases h
    | literal role text =>
      simp only [bodyDefect?] at h
      split at h
      · cases h
      · rename_i ht
        exact ⟨.literal ht (ih h).1, fun _ => opensApart_literal role text _⟩
    | slot written =>
      simp only [bodyDefect?] at h
      split at h
      · cases h
      · rename_i hafter
        obtain ⟨htail, hopens⟩ := ih h
        exact ⟨.slot rfl (hopens rfl) htail, fun ha => absurd ha hafter⟩

theorem wellFormed_of_ofSegments {segments : List Segment} {t : Template}
    (h : ofSegments segments = .ok t) : t.WellFormed := by
  simp only [ofSegments] at h
  split at h
  · rename_i framed
    split at h
    · rename_i name hlast
      split at h
      · rename_i hbody
        obtain rfl : counted (.start :: framed) = t := by simpa using h
        have htail := (tail_of_bodyDefect? hbody name).1
        have hframed : framed.dropLast ++ [.finish name] = framed := by
          rw [List.getLast?_eq_some_iff] at hlast
          obtain ⟨inner, rfl⟩ := hlast
          simp
        rw [hframed] at htail
        exact ⟨⟨_, rfl, htail⟩, rfl⟩
      · cases h
    · cases h
  · cases h

theorem eq_counted_of_ofSegments {segments : List Segment} {t : Template}
    (h : ofSegments segments = .ok t) : t = counted segments := by
  unfold ofSegments at h
  split at h
  · split at h
    · split at h
      · exact (Except.ok.inj h).symm
      · cases h
    · cases h
  · cases h

/-! ## Taking out captured values -/

theorem countP_isSlot_map_unfilled (row : List Segment) :
    (row.map Segment.unfilled).countP isSlot = row.countP isSlot := by
  simp [List.countP_map, Function.comp_def]

theorem WellFormed.unfilled {t : Template} (h : t.WellFormed) : t.unfilled.WellFormed := by
  obtain ⟨⟨more, hseg, htail⟩, hcount⟩ := h
  refine ⟨⟨more.map Segment.unfilled, ?_, tail_map_unfilled.mpr htail⟩, ?_⟩
  · simp [Template.unfilled, hseg, Segment.unfilled]
  · exact hcount.trans (countP_isSlot_map_unfilled t.segments).symm

/-! ## Splitting -/

section Splitting

variable {separator : Text} (hsep : separator ≠ [])

theorem splitLiteral_tail {more : List Segment} (text : Text) (h : Tail more) :
    Tail (splitLiteral separator hsep text ++ more) := by
  fun_induction splitLiteral separator hsep text with
  | case1 text hcut => exact h.plainOf_append text
  | case2 text before after hcut ih =>
    rw [List.append_assoc]
    exact (Tail.literal hsep ih).plainOf_append before

theorem opensApart_splitLiteral {text : Text} (more : List Segment) (ht : text ≠ []) :
    OpensApart (splitLiteral separator hsep text ++ more) := by
  fun_cases splitLiteral separator hsep text with
  | case1 hcut => exact opensApart_plainOf_append more ht
  | case2 before after hcut =>
    by_cases hb : before = []
    · simpa [hb, plainOf] using opensApart_literal _ _ _
    · rw [List.append_assoc]
      exact opensApart_plainOf_append _ hb

theorem countP_isSlot_splitLiteral (text : Text) :
    (splitLiteral separator hsep text).countP isSlot = 0 := by
  have hplain : ∀ text, (plainOf text).countP isSlot = 0 := by
    intro text
    unfold plainOf
    split <;> rfl
  fun_induction splitLiteral separator hsep text with
  | case1 text hcut => exact hplain text
  | case2 text before after hcut ih =>
    rw [List.countP_append, hplain, List.countP_cons, ih]
    rfl

theorem splitSegment_of_isSlot {s : Segment} (h : s.isSlot) :
    splitSegment separator hsep s = [s] := by
  cases s <;> first | rfl | cases h

theorem countP_isSlot_splitSegment (s : Segment) :
    (splitSegment separator hsep s).countP isSlot = [s].countP isSlot := by
  unfold splitSegment
  split
  · rw [countP_isSlot_splitLiteral]
    rfl
  · rfl

/-- Splitting makes literals of literals, so a slot among the pieces was there before. -/
theorem eq_of_mem_splitSegment {s x : Segment} (hx : x ∈ splitSegment separator hsep s)
    (hslot : x.isSlot) : x = s := by
  have hcount : 0 < [s].countP isSlot := by
    rw [← countP_isSlot_splitSegment hsep]
    exact List.countP_pos_iff.mpr ⟨x, hx, hslot⟩
  have hs : s.isSlot := by simpa using List.countP_pos_iff.mp hcount
  rw [splitSegment_of_isSlot hsep hs] at hx
  exact List.mem_singleton.mp hx

theorem opensApart_flatMap_split {row : List Segment} (h : Tail row) (ha : OpensApart row) :
    OpensApart (row.flatMap (splitSegment separator hsep)) := by
  cases h with
  | finish name => exact opensApart_finish name
  | @literal role text more ht hm =>
    rw [List.flatMap_cons]
    cases role with
    | plain => exact opensApart_splitLiteral hsep _ ht
    | separator => exact opensApart_literal _ _ _
  | @slot s more hs _ _ =>
    have := ha s rfl
    simp [hs] at this

theorem Tail.flatMap_split {row : List Segment} (h : Tail row) :
    Tail (row.flatMap (splitSegment separator hsep)) := by
  induction h with
  | finish name => exact .finish name
  | @literal role text more ht hm ih =>
    rw [List.flatMap_cons]
    cases role with
    | plain => exact splitLiteral_tail hsep text ih
    | separator => exact .literal ht ih
  | @slot s more hs ha hm ih =>
    rw [List.flatMap_cons, splitSegment_of_isSlot hsep hs]
    exact .slot hs (opensApart_flatMap_split hsep hm ha) ih

theorem countP_isSlot_flatMap_split (row : List Segment) :
    (row.flatMap (splitSegment separator hsep)).countP isSlot = row.countP isSlot := by
  induction row with
  | nil => rfl
  | cons s row ih =>
    rw [List.flatMap_cons, List.countP_append, ih, countP_isSlot_splitSegment,
      ← List.countP_append, List.singleton_append]

end Splitting

theorem WellFormed.splitOn {t : Template} (h : t.WellFormed) (separator : Text) :
    (t.splitOn separator).WellFormed := by
  unfold Template.splitOn
  split
  · rename_i hsep
    obtain ⟨⟨more, hseg, htail⟩, hcount⟩ := h
    refine ⟨⟨more.flatMap (splitSegment separator hsep), ?_, Tail.flatMap_split hsep htail⟩, ?_⟩
    · simp [hseg, splitSegment]
    · simp only [hcount, countP_isSlot_flatMap_split]
  · exact h

end Template
end RouteTemplates
