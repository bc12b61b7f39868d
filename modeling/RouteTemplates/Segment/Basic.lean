import RouteTemplates.Text.Basic

/-!
# Segments

A route template is a row of segments: literal text, named slots, and the two
markers that frame it.  Resolving an input against registered templates gives a
row of the same kind in which every slot has been filled with the text found
for it, so one type serves both, and `unfilled` leads back from the second to
the first.
-/

namespace RouteTemplates

/-- What a literal counts for when alternatives are ranked.  A separator is
matched like any other literal and carries no weight. -/
inductive LiteralRole
  | plain
  | separator
  deriving DecidableEq, Repr

/-- One unit of a template.

A slot keeps its name as it was written, delimiters included, so two slots of
one name written differently are different segments. -/
inductive Segment
  | start
  | finish (name : Option Text)
  | literal (role : LiteralRole) (text : Text)
  | slot (written : Text)
  | filled (written value : Text)
  deriving DecidableEq, Repr

namespace Segment

/-- The end of a template called `name`; a template without a name has the
empty one. -/
def finishNamed (name : Text) : Segment :=
  .finish (if name = [] then none else some name)

def slotNamed (opening closing : Char) (name : Text) : Segment :=
  .slot (opening :: (name ++ [closing]))

/-- The plain literal `text`, left out when there is no text. -/
def plainOf (text : Text) : List Segment :=
  if text = [] then [] else [.literal .plain text]

theorem plainOf_of_ne_nil {text : Text} (h : text ≠ []) : plainOf text = [.literal .plain text] :=
  if_neg h

theorem eq_plain_of_mem_plainOf {s : Segment} {text : Text} (h : s ∈ plainOf text) :
    s = .literal .plain text ∧ text ≠ [] := by
  unfold plainOf at h
  split at h
  · cases h
  · rename_i ht
    exact ⟨List.mem_singleton.mp h, ht⟩

theorem flatMap_plainOf (f : Segment → Text) (h : f (.literal .plain []) = []) (text : Text) :
    (plainOf text).flatMap f = f (.literal .plain text) := by
  by_cases ht : text = []
  · rw [ht, h]
    rfl
  · rw [plainOf_of_ne_nil ht, List.flatMap_singleton]

/-- The text between the delimiters, which are the first and the last
character. -/
def nameWithin (written : Text) : Text := written.tail.dropLast

theorem nameWithin_delimited (opening closing : Char) (name : Text) :
    nameWithin (opening :: (name ++ [closing])) = name := by
  simp [nameWithin]

/-- The text the segment shows: what a literal says, what a slot is written as
or filled with, what the end is called. -/
def shown : Segment → Text
  | .start => []
  | .finish name => name.getD []
  | .literal _ text => text
  | .slot written => written
  | .filled _ value => value

/-- The text the segment stands for in an input.  A slot that has not been
filled stands for none yet. -/
def matched : Segment → Text
  | .literal _ text => text
  | .filled _ value => value
  | .start | .finish _ | .slot _ => []

def literal? : Segment → Option Text
  | .literal _ text => some text
  | _ => none

def isLiteral (s : Segment) : Bool := s.literal?.isSome

/-- The name of a slot, filled or not. -/
def slotName? : Segment → Option Text
  | .slot written | .filled written _ => some (nameWithin written)
  | _ => none

def isSlot (s : Segment) : Bool := s.slotName?.isSome

def isFilled : Segment → Bool
  | .filled _ _ => true
  | _ => false

def isFinish : Segment → Bool
  | .finish _ => true
  | _ => false

/-- The name the end of a template carries. -/
def templateName? : Segment → Option Text
  | .finish name => name
  | _ => none

/-- The segment as it stands in the template: a slot loses what filled it. -/
def unfilled : Segment → Segment
  | .filled written _ => .slot written
  | s => s

@[simp]
theorem unfilled_unfilled (s : Segment) : s.unfilled.unfilled = s.unfilled := by
  cases s <;> rfl

@[simp]
theorem slotName?_unfilled (s : Segment) : s.unfilled.slotName? = s.slotName? := by
  cases s <;> rfl

@[simp]
theorem templateName?_unfilled (s : Segment) : s.unfilled.templateName? = s.templateName? := by
  cases s <;> rfl

@[simp]
theorem isSlot_unfilled (s : Segment) : s.unfilled.isSlot = s.isSlot := by
  cases s <;> rfl

@[simp]
theorem isLiteral_unfilled (s : Segment) : s.unfilled.isLiteral = s.isLiteral := by
  cases s <;> rfl

theorem unfilled_eq_literal_iff {s : Segment} {role : LiteralRole} {text : Text} :
    s.unfilled = .literal role text ↔ s = .literal role text := by
  cases s <;> simp [unfilled]

@[simp]
theorem isFinish_unfilled (s : Segment) : s.unfilled.isFinish = s.isFinish := by
  cases s <;> rfl

@[simp]
theorem isFilled_unfilled (s : Segment) : s.unfilled.isFilled = false := by
  cases s <;> rfl

theorem not_isFinish_of_isSlot {s : Segment} (h : s.isSlot) : s.isFinish = false := by
  cases s <;> first | rfl | cases h

end Segment
end RouteTemplates
