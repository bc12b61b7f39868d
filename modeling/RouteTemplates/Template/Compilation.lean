import RouteTemplates.Template.Basic
import RouteTemplates.Template.Delimiters

/-!
# Compiling the text of a template

The scan is either outside a slot, gathering a literal, or inside one, gathering
a name.  An opening delimiter inside a slot gives the slot up: what it was made
of so far becomes literal text, and a new slot opens.  A closing delimiter
outside a slot is literal text as well.  What is left to be wrong is a slot
without a name, one that is never closed, and one that opens where another
closed, since nothing would then tell where the first value ends.

What is gathered is held with the last character first, so that each character
costs the same however many were read before it.
-/

namespace RouteTemplates
namespace Template

mutual

/-- The segments of `text`, which begins at byte `position` outside a slot.
`literal` is what has been read, backwards, since the last slot closed, or since
the beginning when `afterSlot` is false. -/
def scanLiteral (d : Delimiters) (position : Nat) (afterSlot : Bool) (literal : Text) :
    Text → Except Defect (List Segment)
  | [] => .ok (Segment.plainOf literal.reverse)
  | c :: text =>
    let next := position + c.utf8Size
    if c = d.opening then
      if afterSlot ∧ literal = [] then .error (.adjacentSlots position)
      else scanName d next position literal [] text
    else scanLiteral d next afterSlot (c :: literal) text

/-- The segments of `text`, which begins at byte `position` inside a slot.  The
slot opened at byte `opened`, after `literal`, and `name` is what has been read
of its name; both are held backwards. -/
def scanName (d : Delimiters) (position opened : Nat) (literal name : Text) :
    Text → Except Defect (List Segment)
  | [] => .error (.unclosedSlot opened)
  | c :: text =>
    let next := position + c.utf8Size
    if c = d.opening then scanName d next position (name ++ d.opening :: literal) [] text
    else if c = d.closing then
      if name = [] then .error (.unnamedSlot position)
      else
        (scanLiteral d next true [] text).map fun segments =>
          Segment.plainOf literal.reverse ++
            .slotNamed d.opening d.closing name.reverse :: segments
    else scanName d next opened literal (c :: name) text

end

/-- The template written as `text`, called `name` unless the name is empty. -/
def compile (d : Delimiters) (name text : Text) : Except Defect Template :=
  if text = [] then .error .emptyText
  else
    (scanLiteral d 0 false [] text).map fun body =>
      counted (.start :: (body ++ [.finishNamed name]))

end Template
end RouteTemplates
