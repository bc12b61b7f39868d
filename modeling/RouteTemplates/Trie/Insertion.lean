import RouteTemplates.Trie.Ranking
import RouteTemplates.Template.Basic

/-!
# Adding a template

What the template shares with the trie from the root on is shared, and the rest
hangs below the last shared node.  A new node changes how many ways on its
parent has, so each level along the path is ranked again, the deepest first.  A
template that is already there changes nothing, and a match is added as the
template it came from.
-/

namespace RouteTemplates
namespace Node

/-- The first tree with the label has its children changed by `f`; without such
a tree a new one follows the others, its children made by `f` from none. -/
def alter (label : Segment) (f : List Node → List Node) : List Node → List Node
  | [] => [mk label (f [])]
  | mk other children :: more =>
    if other = label then mk other (f children) :: more
    else mk other children :: alter label f more

/-- The trees with the path added. -/
def graft : List Segment → List Node → List Node
  | [], trees => trees
  | s :: path, trees => rank (alter s (graft path) trees)

end Node

namespace Trie

def insert (t : Trie) (template : Template) : Trie :=
  let path := template.unfilled.segments
  let longest := max t.longest path.length
  if Node.holds path t.roots then { t with longest }
  else { roots := Node.graft path t.roots, size := t.size + 1, longest }

end Trie
end RouteTemplates
