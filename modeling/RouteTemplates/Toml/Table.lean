import RouteTemplates.Toml.Value

/-!
# Filling tables

A document may define a thing once.  Each rule here says what may be added to
the tables that are there, and refuses by giving none.

Keys and headers name paths.  Tables on the way come into being when they are
missing.  A dotted key may go on only through tables that dotted keys or headers
further down brought about, never through one with a header of its own or one
written in braces, and a header may go through anything but braces.  Where the
way leads through an array of tables it goes on in its last table.

This is a part of the reader of TOML that stands for code from outside.
-/

namespace RouteTemplates
namespace Toml

def find? (key : Text) (entries : Entries) : Option Value :=
  (entries.find? fun e => e.1 = key).map Prod.snd

/-- The entries with the value under `key` exchanged, or added at the end. -/
def put (key : Text) (v : Value) : Entries → Entries
  | [] => [(key, v)]
  | e :: more => if e.1 = key then (key, v) :: more else e :: put key v more

/-- Changes the table at the end of a path by `change`, which is told how that
table came about.  `viaKey` tells that the path is part of a dotted key and not
of a header. -/
def alterAt (viaKey : Bool) (change : Origin → Entries → Option Entries) :
    List Text → Origin → Entries → Option Entries
  | [], origin, entries => change origin entries
  | key :: path, _, entries =>
    match find? key entries with
    | none => do
      let origin := if viaKey then .dotted else .implied
      let inner ← alterAt viaKey change path origin []
      return put key (.table origin inner) entries
    | some (.table origin inner) => do
      if origin = .inlined || (viaKey && origin = .header) then none
      else
        let inner ← alterAt viaKey change path origin inner
        return put key (.table origin inner) entries
    | some (.tables items) => do
      match items.getLast? with
      | some (.table origin inner) =>
        let inner ← alterAt viaKey change path origin inner
        return put key (.tables (items.dropLast ++ [.table origin inner])) entries
      | _ => none
    | some _ => none

/-- Gives the last key of a path a value in a table.  A dotted key ends in a
table that dotted keys brought about, and a plain key does not. -/
def define (path : List Text) (v : Value) (origin : Origin) (entries : Entries) :
    Option Entries :=
  match path.getLast? with
  | none => none
  | some key =>
    let parents := path.dropLast
    let add (origin : Origin) (entries : Entries) : Option Entries :=
      if origin = .dotted ↔ parents = [] then none
      else if (find? key entries).isSome then none
      else some (entries ++ [(key, v)])
    alterAt true add parents origin entries

/-- What a header does in the table its last key is in: it opens a table that is
not there, or gives an implied one its header. -/
def openTable (key : Text) (entries : Entries) : Option Entries :=
  match find? key entries with
  | none => some (put key (.table .header []) entries)
  | some (.table .implied inner) => some (put key (.table .header inner) entries)
  | some _ => none

/-- What the header of an array of tables does there: it begins the next
table. -/
def extendTables (key : Text) (entries : Entries) : Option Entries :=
  let next := Value.table .header []
  match find? key entries with
  | none => some (put key (.tables [next]) entries)
  | some (.tables items) => some (put key (.tables (items ++ [next])) entries)
  | some _ => none

end Toml
end RouteTemplates
