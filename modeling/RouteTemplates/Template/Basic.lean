import RouteTemplates.Segment.Rendering

/-!
# Templates

A template is its row of segments, together with the number of its slots, which
is counted when the row is made.  The templates the library makes begin with the
start and finish with the end; the only other one is the template without
segments, which matches nothing at all, not even the empty input.
-/

namespace RouteTemplates

/-- `slotCount` is checked after each extraction: one that read another number
of values fails. -/
structure Template where
  segments : List Segment
  slotCount : Nat
  deriving DecidableEq, Repr

namespace Template

def empty : Template := ⟨[], 0⟩

instance : Inhabited Template := ⟨empty⟩

/-- The template of a row whose slots, filled ones included, are still to be
counted. -/
def counted (segments : List Segment) : Template := ⟨segments, segments.countP Segment.isSlot⟩

/-- The name the last segment carries, if it has a segment before it. -/
def name? (t : Template) : Option Text :=
  match t.segments with
  | [] | [_] => none
  | _ :: rest => rest.getLast?.bind Segment.templateName?

/-- The template a match came from: every slot loses what filled it. -/
def unfilled (t : Template) : Template := { t with segments := t.segments.map Segment.unfilled }

@[simp]
theorem unfilled_unfilled (t : Template) : t.unfilled.unfilled = t.unfilled := by
  simp [unfilled]

@[simp]
theorem name?_unfilled (t : Template) : t.unfilled.name? = t.name? := by
  obtain ⟨segments, slotCount⟩ := t
  match segments with
  | [] | [_] => rfl
  | _ :: s :: more =>
    show ((s :: more).map Segment.unfilled).getLast?.bind Segment.templateName? =
      (s :: more).getLast?.bind Segment.templateName?
    rw [List.getLast?_map]
    cases (s :: more).getLast? <;> simp

def describe (t : Template) : Text := Segment.chain (t.segments.map Segment.describe)

/-- A text by which a template and its matches can be looked up in a table. -/
def key (t : Template) : Text := Segment.chain (t.segments.map Segment.key)

@[simp]
theorem key_unfilled (t : Template) : t.unfilled.key = t.key := by
  simp [key, unfilled, Function.comp_def]

end Template
end RouteTemplates
