import RouteTemplates.Text.CodeRanges

/-!
# Blank characters

The Unicode property `White_Space`.
-/

namespace RouteTemplates
namespace Text

/-- The code points that are `White_Space`. -/
def blankRanges : CodeRanges :=
  [(0x9, 0xD), (0x20, 0x20), (0x85, 0x85), (0xA0, 0xA0), (0x1680, 0x1680), (0x2000, 0x200A),
   (0x2028, 0x2029), (0x202F, 0x202F), (0x205F, 0x205F), (0x3000, 0x3000)]

/-- Whether the character is white space in Unicode. -/
def isBlank (c : Char) : Bool :=
  blankRanges.covers c.toNat

end Text
end RouteTemplates
