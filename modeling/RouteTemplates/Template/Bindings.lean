import RouteTemplates.Text.Basic

/-!
# Bindings

What an input says for the slots of a template, in the order of the slots.  Two
slots may have one name.  Asking for a name gives the first value, while the
table handed on to others keeps the last.
-/

namespace RouteTemplates

/-- The name of a slot and the text found for it. -/
structure Binding where
  name : Text
  value : Text
  deriving DecidableEq, Repr

abbrev Bindings := List Binding

namespace Bindings

def get? (bs : Bindings) (name : Text) : Option Text :=
  (bs.find? fun b => b.name = name).map Binding.value

/-- One binding for each name, the last one. -/
def toTable : Bindings → Bindings
  | [] => []
  | b :: bs => if bs.any fun later => later.name = b.name then toTable bs else b :: toTable bs

end Bindings
end RouteTemplates
