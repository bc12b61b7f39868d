import RouteTemplates.Trie.Basic
import RouteTemplates.Segment.Rendering

/-!
# The outline of a trie

A line for each node, in the order in which they are tried, and two spaces in front for each
level.
-/

namespace RouteTemplates
namespace Node

mutual

/-- The lines of a tree whose root is so many levels down. -/
def outline : Node → (depth : Nat) → List Text
  | mk label children, depth =>
    (List.replicate (2 * depth) ' ' ++ label.describe) :: outlines children (depth + 1)

def outlines : List Node → (depth : Nat) → List Text
  | [], _ => []
  | n :: more, depth => n.outline depth ++ outlines more depth

end

end Node

namespace Trie

def outline (t : Trie) : Text := (Node.outlines t.roots 0).flatMap (· ++ ['\n'])

end Trie
end RouteTemplates
