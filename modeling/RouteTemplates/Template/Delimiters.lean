import RouteTemplates.Template.Defect

/-!
# Slot delimiters

A slot is written between an opening and a closing character.  They differ,
since otherwise no reader could tell a slot that opens from one that closes, and
the type holds only such pairs.
-/

namespace RouteTemplates

structure Delimiters where
  opening : Char
  closing : Char
  distinct : opening ≠ closing
  deriving DecidableEq

namespace Delimiters

def braces : Delimiters := ⟨'\x7b', '\x7d', by decide⟩

instance : Inhabited Delimiters := ⟨braces⟩

def ofChars (opening closing : Char) : Except Defect Delimiters :=
  if h : opening = closing then .error (.sameDelimiters opening) else .ok ⟨opening, closing, h⟩

end Delimiters
end RouteTemplates
