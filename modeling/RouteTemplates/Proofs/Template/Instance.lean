import Mathlib.Data.List.Forall2
import RouteTemplates.Proofs.Template.WellFormed
import RouteTemplates.Proofs.Text.FirstCut
import RouteTemplates.Template.Extraction

/-!
# Instances of a template

An instance of a template is a text got by putting values in the place of its
slots.  It is settled when each literal that stands behind a slot is met first
where the value of that slot ends.  Extraction finds the settled instances and
nothing else, and finds the values they were made from.
-/

namespace RouteTemplates
namespace Segment

/-- The text of a row whose slots have been given the values in their order. -/
def instantiate : List Segment → List Text → Text
  | .slot _ :: more, value :: values => value ++ instantiate more values
  | s :: more, values => s.matched ++ instantiate more values
  | [], _ => []

/-- The literals that directly follow the slots of a row, one entry for each slot
that has not been filled. -/
def slotMarks : List Segment → List (Option Text)
  | .slot _ :: more => more.head?.bind literal? :: slotMarks more
  | _ :: more => slotMarks more
  | [] => []

/-- There is one value for each slot, and behind each of them the literal that
follows the slot is met for the first time. -/
def Settled (row : List Segment) (values : List Text) : Prop :=
  List.Forall₂ (fun mark? value => ∀ mark ∈ mark?, Text.FirstAfter mark value)
    (slotMarks row) values

def slotNames (row : List Segment) : List Text := row.filterMap slotName?

def value? : Segment → Option Text
  | .filled _ value => some value
  | _ => none

def captured (row : List Segment) : List Text := row.filterMap value?

theorem slotNames_map_unfilled (row : List Segment) :
    slotNames (row.map unfilled) = slotNames row := by
  simp [slotNames, List.filterMap_map]

theorem length_slotNames (row : List Segment) : (slotNames row).length = row.countP isSlot :=
  List.length_filterMap_eq_countP

theorem length_slotMarks {row : List Segment} (h : ∀ s ∈ row, s.isFilled = false) :
    (slotMarks row).length = row.countP isSlot := by
  induction row with
  | nil => rfl
  | cons s row ih =>
    have hrow := ih fun s hs => h s (List.mem_cons_of_mem _ hs)
    have hs := h s List.mem_cons_self
    cases s with
    | filled written value => cases hs
    | slot written => simp [slotMarks, List.countP_cons, isSlot, slotName?, hrow]
    | start | finish _ | literal _ _ => simp [slotMarks, isSlot, slotName?, hrow]

theorem Settled.length_eq {row : List Segment} {values : List Text} (h : Settled row values)
    (hopen : ∀ s ∈ row, s.isFilled = false) : values.length = row.countP isSlot := by
  rw [← length_slotMarks hopen]
  exact (List.Forall₂.length_eq h).symm

end Segment

namespace Template

open Segment

def instantiate (t : Template) (values : List Text) : Text :=
  Segment.instantiate t.segments values

def slotNames (t : Template) : List Text := Segment.slotNames t.segments

/-- The values under the names of the slots. -/
def bind (t : Template) (values : List Text) : Bindings :=
  List.zipWith Binding.mk t.slotNames values

/-- The input is the template with the values in place of its slots, and each
value ends where the literal behind it is first met. -/
structure Instance (t : Template) (values : List Text) (input : Text) : Prop where
  spelled : t.instantiate values = input
  settled : Settled t.segments values

theorem map_name_bind {t : Template} {values : List Text}
    (h : values.length = t.slotNames.length) : (t.bind values).map Binding.name = t.slotNames := by
  rw [bind, ← List.map_uncurry_zip_eq_zipWith, List.map_map]
  exact List.map_fst_zip (Nat.le_of_eq h.symm)

theorem map_value_bind {t : Template} {values : List Text}
    (h : values.length = t.slotNames.length) : (t.bind values).map Binding.value = values := by
  rw [bind, ← List.map_uncurry_zip_eq_zipWith, List.map_map]
  exact List.map_snd_zip (Nat.le_of_eq h)

/-! ## What a row takes from an input -/

theorem extractFrom_finish (name : Option Text) (input : Text) :
    extractFrom [.finish name] input = .ended input := rfl

theorem extractFrom_literal (role : LiteralRole) (text : Text) (more : List Segment)
    (rest : Text) :
    extractFrom (.literal role text :: more) (text ++ rest) = extractFrom more rest := by
  simp [extractFrom, Text.isPrefixOf?_eq_some_iff.mpr rfl]

theorem extractFrom_filled (written value : Text) (more : List Segment) (rest : Text) :
    extractFrom (.filled written value :: more) (value ++ rest) =
      (extractFrom more rest).cons ⟨nameWithin written, value⟩ := by
  simp [extractFrom, Text.takeBytes?_append]

theorem extractFrom_literal_eq_iff {role : LiteralRole} {text : Text} {more : List Segment}
    {input : Text} {bs : Bindings} :
    extractFrom (.literal role text :: more) input = ⟨bs, true⟩ ↔
      ∃ rest, input = text ++ rest ∧ extractFrom more rest = ⟨bs, true⟩ := by
  constructor
  · intro h
    simp only [extractFrom] at h
    split at h
    · rename_i rest hrest
      exact ⟨rest, Text.isPrefixOf?_eq_some_iff.mp hrest, h⟩
    · cases h
  · rintro ⟨rest, rfl, h⟩
    rw [extractFrom_literal, h]

theorem extractFrom_slot_eq_iff {written : Text} {more : List Segment} {input : Text}
    {bs : Bindings} :
    extractFrom (.slot written :: more) input = ⟨bs, true⟩ ↔
      ∃ value rest bs', slotValue? more input = some (value, rest) ∧
        extractFrom more rest = ⟨bs', true⟩ ∧ bs = ⟨nameWithin written, value⟩ :: bs' := by
  constructor
  · intro h
    simp only [extractFrom] at h
    split at h
    · rename_i value rest hvalue
      obtain ⟨rfl, hcomplete⟩ := Extraction.mk.inj h
      exact ⟨value, rest, _, hvalue, by rw [← hcomplete], rfl⟩
    · cases h
  · rintro ⟨value, rest, bs', hvalue, hmore, rfl⟩
    simp only [extractFrom, hvalue, hmore, Extraction.cons]

/-- A slot takes what the literal behind it leaves, as far as the rest of the
row then goes through. -/
theorem slotValue?_and_extractFrom_iff {more : List Segment} (h : Tail more)
    (ha : OpensApart more) {input value rest : Text} {bs : Bindings} :
    slotValue? more input = some (value, rest) ∧ extractFrom more rest = ⟨bs, true⟩ ↔
      input = value ++ rest ∧ (∀ mark ∈ more.head?.bind literal?, Text.FirstAfter mark value) ∧
        extractFrom more rest = ⟨bs, true⟩ := by
  rw [← and_assoc, and_congr_left_iff]
  intro hmore
  cases h with
  | finish name =>
    obtain ⟨_, hrest⟩ := Extraction.mk.inj hmore
    obtain rfl := List.isEmpty_iff.mp hrest
    simp [slotValue?, literal?]
  | @literal role mark more _ _ =>
    obtain ⟨after, rfl, _⟩ := extractFrom_literal_eq_iff.mp hmore
    simp [slotValue?, literal?, Text.cutAt?_eq_some_iff, Option.map_eq_some_iff]
  | @slot s more hs _ _ =>
    have := ha s rfl
    simp [hs] at this

/-- Extraction goes through exactly on the settled instances of a row, and reads
the values they were made from. -/
theorem extractFrom_eq_iff {row : List Segment} (h : Tail row)
    (hopen : ∀ s ∈ row, s.isFilled = false) {input : Text} {bs : Bindings} :
    extractFrom row input = ⟨bs, true⟩ ↔
      ∃ values, Segment.instantiate row values = input ∧ Settled row values ∧
        bs = List.zipWith Binding.mk (Segment.slotNames row) values := by
  induction h generalizing input bs with
  | finish name =>
    rw [extractFrom_finish, Extraction.ended, Extraction.mk.injEq, List.isEmpty_iff]
    constructor
    · rintro ⟨rfl, rfl⟩
      exact ⟨[], rfl, .nil, rfl⟩
    · rintro ⟨values, rfl, hsettled, rfl⟩
      cases hsettled
      exact ⟨rfl, rfl⟩
  | @literal role text more _ _ ih =>
    have ih := fun rest => @ih (fun s hs => hopen s (List.mem_cons_of_mem _ hs)) rest bs
    rw [extractFrom_literal_eq_iff]
    constructor
    · rintro ⟨rest, rfl, hmore⟩
      obtain ⟨values, rfl, hsettled, rfl⟩ := (ih rest).mp hmore
      exact ⟨values, rfl, hsettled, rfl⟩
    · rintro ⟨values, rfl, hsettled, rfl⟩
      exact ⟨_, rfl, (ih _).mpr ⟨values, rfl, hsettled, rfl⟩⟩
  | @slot s more hs ha hm ih =>
    have ih := @ih fun s hs => hopen s (List.mem_cons_of_mem _ hs)
    obtain ⟨written, rfl⟩ : ∃ written, s = .slot written := by
      have hnot := hopen s List.mem_cons_self
      cases s with
      | slot written => exact ⟨written, rfl⟩
      | filled _ _ => cases hnot
      | start | finish _ | literal _ _ => cases hs
    rw [extractFrom_slot_eq_iff]
    constructor
    · rintro ⟨value, rest, bs', hvalue, hmore, rfl⟩
      obtain ⟨rfl, hmark, _⟩ := (slotValue?_and_extractFrom_iff hm ha).mp ⟨hvalue, hmore⟩
      obtain ⟨values, rfl, hsettled, rfl⟩ := ih.mp hmore
      exact ⟨value :: values, rfl, .cons hmark hsettled, rfl⟩
    · rintro ⟨values, rfl, hsettled, rfl⟩
      cases hsettled with
      | @cons _ value _ values hmark hsettled =>
        have hmore := ih.mpr ⟨values, rfl, hsettled, rfl⟩
        obtain ⟨hvalue, _⟩ := (slotValue?_and_extractFrom_iff hm ha).mpr ⟨rfl, hmark, hmore⟩
        exact ⟨value, _, _, hvalue, hmore, rfl⟩

theorem lookup?_eq_some_iff {t : Template} (h : t.segments ≠ []) {input : Text} {bs : Bindings} :
    t.lookup? input = some bs ↔
      extractFrom t.segments input = ⟨bs, true⟩ ∧ bs.length = t.slotCount := by
  rw [lookup?, extraction, if_neg h, Extraction.result?]
  cases hread : extractFrom t.segments input with
  | mk read complete =>
    simp only [Option.ite_none_right_eq_some, Option.some.injEq, Extraction.mk.injEq]
    constructor
    · rintro ⟨⟨hcomplete, hcount⟩, rfl⟩
      exact ⟨⟨rfl, hcomplete⟩, hcount⟩
    · rintro ⟨⟨rfl, hcomplete⟩, hcount⟩
      exact ⟨⟨hcomplete, hcount⟩, rfl⟩

theorem length_of_extractFrom {row : List Segment} (h : Tail row)
    (hopen : ∀ s ∈ row, s.isFilled = false) {input : Text} {bs : Bindings}
    (hread : extractFrom row input = ⟨bs, true⟩) : bs.length = row.countP isSlot := by
  obtain ⟨values, _, hsettled, rfl⟩ := (extractFrom_eq_iff h hopen).mp hread
  rw [List.length_zipWith, length_slotNames, hsettled.length_eq hopen, Nat.min_self]

theorem WellFormed.lookup?_eq_some_iff_extractFrom {t : Template} (h : t.WellFormed)
    (hopen : ∀ s ∈ t.segments, s.isFilled = false) {input : Text} {bs : Bindings} :
    t.lookup? input = some bs ↔ extractFrom t.segments input = ⟨bs, true⟩ := by
  rw [lookup?_eq_some_iff h.segments_ne_nil, and_iff_left_iff_imp]
  obtain ⟨more, hseg, htail⟩ := h.framed
  rw [h.counted, hseg]
  exact length_of_extractFrom htail fun s hs => hopen s (by simp [hseg, hs])

theorem WellFormed.lookup?_isSome_iff {t : Template} (h : t.WellFormed)
    (hopen : ∀ s ∈ t.segments, s.isFilled = false) {input : Text} :
    (t.lookup? input).isSome ↔ (extractFrom t.segments input).complete := by
  rw [Option.isSome_iff_exists]
  constructor
  · rintro ⟨bs, hbs⟩
    rw [(h.lookup?_eq_some_iff_extractFrom hopen).mp hbs]
  · intro hcomplete
    refine ⟨(extractFrom t.segments input).bindings, ?_⟩
    rw [h.lookup?_eq_some_iff_extractFrom hopen, ← hcomplete]

theorem WellFormed.lookup?_eq_some_iff_instance {t : Template} (h : t.WellFormed)
    (hopen : ∀ s ∈ t.segments, s.isFilled = false) {input : Text} {bs : Bindings} :
    t.lookup? input = some bs ↔ ∃ values, t.Instance values input ∧ bs = t.bind values := by
  rw [h.lookup?_eq_some_iff_extractFrom hopen]
  obtain ⟨more, hseg, htail⟩ := h.framed
  obtain ⟨segments, slotCount⟩ := t
  obtain rfl : segments = .start :: more := hseg
  -- The start is passed over by the extraction and stands for no text in an instance.
  refine (extractFrom_eq_iff htail fun s hs => hopen s (List.mem_cons_of_mem _ hs)).trans
    (exists_congr fun values => ?_)
  constructor
  · rintro ⟨hspelled, hsettled, hbs⟩
    exact ⟨⟨hspelled, hsettled⟩, hbs⟩
  · rintro ⟨⟨hspelled, hsettled⟩, hbs⟩
    exact ⟨hspelled, hsettled, hbs⟩

theorem Instance.length_values {t : Template} {values : List Text} {input : Text}
    (h : t.Instance values input) (hopen : ∀ s ∈ t.segments, s.isFilled = false) :
    values.length = t.slotNames.length := by
  rw [h.settled.length_eq hopen, slotNames, length_slotNames]

/-- An input is an instance by one choice of values, since the lookup of it has one
result and the result holds the values. -/
theorem WellFormed.instance_unique {t : Template} (h : t.WellFormed)
    (hopen : ∀ s ∈ t.segments, s.isFilled = false) {values others : List Text} {input : Text}
    (hv : t.Instance values input) (ho : t.Instance others input) : others = values := by
  have hfound := (h.lookup?_eq_some_iff_instance hopen).mpr ⟨values, hv, rfl⟩
  have hother := (h.lookup?_eq_some_iff_instance hopen).mpr ⟨others, ho, rfl⟩
  have hbind : t.bind others = t.bind values := Option.some.inj (hother.symm.trans hfound)
  rw [← map_value_bind (ho.length_values hopen), hbind, map_value_bind (hv.length_values hopen)]

end Template
end RouteTemplates
