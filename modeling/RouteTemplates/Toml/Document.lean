import RouteTemplates.Toml.Dates
import RouteTemplates.Toml.Table

/-!
# TOML documents

A document is a sequence of statements, one to a line: a key with its value, or
the header of a table, to which the keys below it belong.  Values may nest to a
depth below `nestingLimit`, and a key has fewer parts than that.

With this the reader of TOML is complete.  It stands for code from outside: settings are
read through it, and no theorem is about it.
-/

namespace RouteTemplates
namespace Toml

def nestingLimit : Nat := 80

def isBareKeyChar (c : Char) : Bool :=
  c.isAlphanum || c = '-' || c = '_'

/-- One part of a key. -/
def keyPart : Reader Text := fun t =>
  match singleLine t with
  | some read => some read
  | none =>
    let bare := t.takeWhile isBareKeyChar
    if bare = [] then none else some (bare, t.drop bare.length)

/-- The parts of a key, with points between them. -/
def key : Reader (List Text) := fun t => do
  let spaced : Reader Text := fun t => do
    let (part, rest) ← keyPart (skipSpaces t)
    return (part, skipSpaces rest)
  let (path, rest) ← separated '.' spaced t
  if path.length < nestingLimit then some (path, rest) else none

def assignment (value : Reader Value) : Reader (List Text × Value) := fun t => do
  let (path, t) ← key t
  let (v, rest) ← value (skipSpaces (← ['='].isPrefixOf? t))
  return ((path, v), rest)

/-- The items of an array behind the opening bracket. -/
def arrayItems (value : Reader Value) : Reader Value := fun t => do
  let item : Reader Value := fun t => do
    let (v, rest) ← value (skipFiller false t)
    return (v, skipFiller false rest)
  let (items, t) := match separated ',' item t with
    | some (items, t) => (items, skipFiller false (([','].isPrefixOf? t).getD t))
    | none => ([], skipFiller false t)
  return (.array items, ← [']'].isPrefixOf? t)

/-- The entries of a table behind the opening brace, all on one line. -/
def inlineEntries (value : Reader Value) : Reader Value := fun t => do
  let item : Reader (List Text × Value) := fun t => do
    let (entry, rest) ← assignment value t
    return (entry, skipSpaces rest)
  let (items, t) := (separated ',' item t).getD ([], skipSpaces t)
  let entries ← items.foldlM (fun entries (path, v) => define path v .inlined entries) []
  return (.table .inlined entries, ← ['\x7d'].isPrefixOf? t)

/-- A value; `depth` arrays and tables may still be nested in each other. -/
def value (depth : Nat) : Reader Value
  | [] => none
  | c :: rest =>
    if c = '"' ∨ c = '\x27' then (string (c :: rest)).map fun (text, rest) => (.text text, rest)
    else if c = '[' ∨ c = '\x7b' then
      match depth with
      | 0 => none
      | depth + 1 =>
        if c = '[' then arrayItems (value depth) rest else inlineEntries (value depth) rest
    else if let some rest := "true".toList.isPrefixOf? (c :: rest) then
      some (.boolean true, rest)
    else if let some rest := "false".toList.isPrefixOf? (c :: rest) then
      some (.boolean false, rest)
    else dateTime (c :: rest) <|> float (c :: rest) <|> integer (c :: rest)

inductive Statement
  | entry (path : List Text) (v : Value)
  | table (path : List Text)
  | tables (path : List Text)

/-- A header behind its opening bracket. -/
def header : Reader Statement := fun t => do
  match ['['].isPrefixOf? t with
  | some t =>
    let (path, t) ← key t
    return (.tables path, ← [']', ']'].isPrefixOf? t)
  | none =>
    let (path, t) ← key t
    return (.table path, ← [']'].isPrefixOf? t)

/-- A statement and the end of its line. -/
def statement : Reader Statement := fun t => do
  let (s, t) ← match ['['].isPrefixOf? t with
    | some t => header t
    | none => do
      let ((path, v), t) ← assignment (value (nestingLimit - 1)) t
      return (.entry path v, t)
  return (s, ← lineEnd? t)

/-- The statements of a document. -/
def statements? (t : Text) : Option (List Statement) :=
  let (all, rest) := many (fun t => statement (skipFiller false t)) t
  if skipFiller false rest = [] then some all else none

/-- A document half read: its root, and the path of the last header. -/
structure Draft where
  root : Entries
  here : List Text

def Draft.empty : Draft := ⟨[], []⟩

/-- The draft with the statement added. -/
def Draft.apply (d : Draft) : Statement → Option Draft
  | .entry path v => do
    let root ← alterAt false (define path v) d.here .header d.root
    return { d with root }
  | .table path => do
    let root ← alterAt false (fun _ => openTable (path.getLast?.getD [])) path.dropLast
      .header d.root
    return ⟨root, path⟩
  | .tables path => do
    let root ← alterAt false (fun _ => extendTables (path.getLast?.getD [])) path.dropLast
      .header d.root
    return ⟨root, path⟩

/-- The root table of a document, which may begin with a byte order mark. -/
def read? (t : Text) : Option Entries := do
  let statements ← statements? ((['\ufeff'].isPrefixOf? t).getD t)
  let draft ← statements.foldlM Draft.apply .empty
  return draft.root

end Toml
end RouteTemplates
