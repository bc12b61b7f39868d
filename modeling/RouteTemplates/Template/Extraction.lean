import RouteTemplates.Template.Basic
import RouteTemplates.Template.Bindings

/-!
# Reading the values of one template

Literals are taken from the front of the input as they stand.  A slot takes what
lies before the first occurrence of the literal behind it, or all that is left
when it is the last.  Nothing is tried twice: a value is settled by the literal
that follows it, and if the template then fails, the input does not match.  A
filled slot takes as many bytes as its value had.

How many values were read is known also of an attempt that fails, since the
space set aside for them depends on it.
-/

namespace RouteTemplates

/-- How far a template gets into an input: the values read, and whether nothing
of the template or the input is left over. -/
structure Extraction where
  bindings : Bindings
  complete : Bool
  deriving DecidableEq, Repr

namespace Extraction

/-- The template has ended before `input`. -/
def ended (input : Text) : Extraction := ⟨[], input.isEmpty⟩

def stuck : Extraction := ⟨[], false⟩

/-- The extraction that reads `b` first. -/
def cons (b : Binding) (e : Extraction) : Extraction := { e with bindings := b :: e.bindings }

/-- The values read, if nothing is left over and they are `expected` in number. -/
def result? (e : Extraction) (expected : Nat) : Option Bindings :=
  if e.complete ∧ e.bindings.length = expected then some e.bindings else none

end Extraction

namespace Template

/-- The value of a slot with the segments `following` behind it, and the input
behind the value.  There is none when no literal separates the slot from the
next one. -/
def slotValue? (following : List Segment) (input : Text) : Option (Text × Text) :=
  match following with
  | [] | .finish _ :: _ => some (input, [])
  | .literal _ mark :: _ =>
    (Text.cutAt? mark input).map fun (value, after) => (value, mark ++ after)
  | .start :: _ | .slot _ :: _ | .filled _ _ :: _ => none

def extractFrom : List Segment → Text → Extraction
  | [], input | .finish _ :: _, input => .ended input
  | .start :: more, input => extractFrom more input
  | .literal _ text :: more, input =>
    match text.isPrefixOf? input with
    | some rest => extractFrom more rest
    | none => .stuck
  | .slot written :: more, input =>
    match slotValue? more input with
    | some (value, rest) => (extractFrom more rest).cons ⟨Segment.nameWithin written, value⟩
    | none => .stuck
  | .filled written value :: more, input =>
    match Text.takeBytes? (Text.byteSize value) input with
    | some (value, rest) => (extractFrom more rest).cons ⟨Segment.nameWithin written, value⟩
    | none => .stuck

def extraction (t : Template) (input : Text) : Extraction :=
  if t.segments = [] then .stuck else extractFrom t.segments input

/-- The values of the slots in `input`, if it matches. -/
def lookup? (t : Template) (input : Text) : Option Bindings :=
  (t.extraction input).result? t.slotCount

end Template
end RouteTemplates
