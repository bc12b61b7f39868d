import RouteTemplates.Text.Quoted

/-!
# What can be wrong with a template

A template is refused for the text it is written as, for the segments it is
assembled from, or for the delimiters its slots are to have.  An input that does
not match is no defect: looking it up finds nothing.
-/

namespace RouteTemplates

/-- Positions are byte offsets into the text of the template, indexes count the
segments handed over. -/
inductive Defect
  | emptyText
  /-- A slot opens where the one before it closed. -/
  | adjacentSlots (position : Nat)
  /-- The slot that opens at the position is never closed. -/
  | unclosedSlot (position : Nat)
  /-- The slot that closes at the position has no name. -/
  | unnamedSlot (position : Nat)
  | sameDelimiters (delimiter : Char)
  | missingStart
  | missingFinish
  /-- One of the two markers stands between other segments. -/
  | misplacedMarker (index : Nat)
  | emptyLiteral (index : Nat)
  /-- A slot segment directly follows another one. -/
  | unseparatedSlots (index : Nat)
  /-- The segment carries a captured value, and only a match has those. -/
  | filledSlot (index : Nat)
  deriving DecidableEq, Repr

namespace Defect

def message : Defect → Text
  | .emptyText => "pattern expression must not be empty".toList
  | .adjacentSlots position =>
    "parameters must be separated by a literal, pos ".toList ++ Text.ofNat position
  | .unclosedSlot position => "parameter was not closed, pos ".toList ++ Text.ofNat position
  | .unnamedSlot position => "empty name of parameter, pos ".toList ++ Text.ofNat position
  | .sameDelimiters delimiter =>
    "parameter delimiters must differ, both are ".toList ++ Text.quotedChar delimiter
  | .missingStart => "token sequence must begin with START".toList
  | .missingFinish => "token sequence must finish with END".toList
  | .misplacedMarker index =>
    "START/END marker in the middle of the sequence, index ".toList ++ Text.ofNat index
  | .emptyLiteral index => "literal token must not be empty, index ".toList ++ Text.ofNat index
  | .unseparatedSlots index =>
    "parameter tokens must be separated by a literal, index ".toList ++ Text.ofNat index
  | .filledSlot index =>
    "resolved parameter is not allowed in a compiled pattern, index ".toList ++ Text.ofNat index

end Defect
end RouteTemplates
