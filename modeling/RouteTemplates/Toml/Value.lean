import RouteTemplates.Text.Basic

/-!
# TOML values

Of floats, dates and times only the kind is kept.  They are checked when a
document is read, and nothing asks for their value.

A table remembers how it came about, because that decides what may still be
added to it further down in the document.

These are the values of a reader of TOML that stands for code from outside.  Settings are
read through it, and no theorem is about it.
-/

namespace RouteTemplates
namespace Toml

inductive Origin
  /-- The root, a table with a header of its own, or an element of an array of
  tables. -/
  | header
  /-- Named on the way to another header, and still without one of its own. -/
  | implied
  /-- Named on the way to a dotted key. -/
  | dotted
  /-- Written in braces, and complete. -/
  | inlined
  deriving DecidableEq, Repr

inductive Value
  | text (content : Text)
  | integer (n : Int)
  | float
  | boolean (b : Bool)
  | dateTime
  | array (items : List Value)
  /-- An array of tables, grown by one table for each of its headers. -/
  | tables (items : List Value)
  | table (origin : Origin) (entries : List (Text × Value))

/-- The entries of a table in the order in which their keys were first named. -/
abbrev Entries := List (Text × Value)

end Toml
end RouteTemplates
