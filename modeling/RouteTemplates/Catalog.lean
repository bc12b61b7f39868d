import RouteTemplates.Scratch.Basic
import RouteTemplates.Template.Compilation
import RouteTemplates.Template.Extraction
import RouteTemplates.Trie.Insertion
import RouteTemplates.Trie.Resolution

/-!
# Catalogs

A catalog holds the registered templates, the delimiters its texts are written
with, and the scratch space that looking things up needs.  Lookups change the
scratch space and nothing else.
-/

namespace RouteTemplates

structure Catalog where
  trie : Trie
  delimiters : Delimiters
  scratch : Scratch

namespace Catalog

def new (delimiters : Delimiters) (ceilings : Ceilings) : Catalog :=
  ⟨.empty, delimiters, .withCeilings ceilings⟩

/-- A descent takes no more steps than the longest template has segments, so that
is the room foreseen for it. -/
def insert (c : Catalog) (template : Template) : Catalog :=
  let trie := c.trie.insert template
  { c with trie, scratch := { c.scratch with steps := c.scratch.steps.foresee trie.longest } }

/-- Compiles and registers; a text with a defect leaves the catalog as it is. -/
def add (c : Catalog) (name text : Text) : Except Defect (Template × Catalog) :=
  (Template.compile c.delimiters name text).map fun template => (template, c.insert template)

/-- The catalog that is there after `add`, whether or not the text has a defect. -/
def afterAdd (c : Catalog) (name text : Text) : Catalog :=
  match c.add name text with
  | .ok (_, c') => c'
  | .error _ => c

end Catalog

/-- The values of the slots, read with a buffer from the pool. -/
def Template.lookupWith (t : Template) (pool : BufferPool) (input : Text) :
    Option Bindings × BufferPool :=
  let e := t.extraction input
  (e.result? t.slotCount, pool.use e.bindings.length)

namespace Catalog

def resolve (c : Catalog) (input : Text) : Option Template × Catalog :=
  let steps := c.scratch.steps.use (c.trie.descend input).taken.length
  (c.trie.resolve? input, { c with scratch := { c.scratch with steps } })

def lookup (c : Catalog) (t : Template) (input : Text) : Option Bindings × Catalog :=
  let (found, values) := t.lookupWith c.scratch.values input
  (found, { c with scratch := { c.scratch with values } })

end Catalog
end RouteTemplates
