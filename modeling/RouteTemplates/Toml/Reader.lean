import RouteTemplates.Text.Basic

/-!
# Reading from the front of a text

A reader takes what it reads from the front and gives back the rest.  A document
is refused as a whole, so readers do not say what went wrong: whatever cannot be
read is left over, and the reader around them finds something else than it
needs.

The readers of the modules around this one stand for code from outside that reads TOML,
and no theorem is about them.
-/

namespace RouteTemplates
namespace Toml

abbrev Reader (α : Type) := Text → Option (α × Text)

/-- Reads as often as the reader succeeds, but at most `limit` times. -/
def manyUpTo {α : Type} (read : Reader α) : (limit : Nat) → Text → List α × Text
  | 0, t => ([], t)
  | limit + 1, t =>
    match read t with
    | some (a, rest) =>
      let (more, rest) := manyUpTo read limit rest
      (a :: more, rest)
    | none => ([], t)

/-- Reads as often as the reader succeeds.  Each time takes a character at least,
so there are no more times than characters. -/
def many {α : Type} (read : Reader α) (t : Text) : List α × Text :=
  manyUpTo read t.length t

/-- Items with `mark` between each two, at least one. -/
def separated {α : Type} (mark : Char) (item : Reader α) : Reader (List α) := fun t => do
  let (first, t) ← item t
  let (more, t) := many (fun t => do item (← [mark].isPrefixOf? t)) t
  return (first :: more, t)

def isSpace (c : Char) : Bool := c = ' ' || c = '\t'

def skipSpaces (t : Text) : Text := t.dropWhile isSpace

/-- The rest behind a line break, which is a line feed with or without a carriage
return before it. -/
def lineBreak? : Text → Option Text
  | '\n' :: rest | '\r' :: '\n' :: rest => some rest
  | _ => none

/-- Whether the character may stand in a comment: no control character but the
tab. -/
def isPlain (c : Char) : Bool := c = '\t' || (' ' ≤ c && c ≠ '\x7f')

def skipComment : Text → Text
  | '#' :: rest => rest.dropWhile isPlain
  | t => t

/-- The rest behind the end of a line, which may hold spaces and a comment.  The
last line ends where the text does. -/
def lineEnd? (t : Text) : Option Text :=
  match skipComment (skipSpaces t) with
  | [] => some []
  | rest => lineBreak? rest

/-- Skips spaces, line breaks and comments. -/
def skipFiller (inComment : Bool) : Text → Text
  | [] => []
  | '\n' :: rest | '\r' :: '\n' :: rest => skipFiller false rest
  | c :: rest =>
    if (inComment && isPlain c) || isSpace c then skipFiller inComment rest
    else if c = '#' then skipFiller true rest
    else c :: rest

end Toml
end RouteTemplates
