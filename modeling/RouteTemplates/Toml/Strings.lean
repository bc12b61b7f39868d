import RouteTemplates.Toml.Reader

/-!
# TOML strings

Four kinds: in quotation marks, where a backslash escapes, or in apostrophes,
where nothing does, and either kind with the mark three times may go over
several lines.  A line break in the text is a line feed however it was written,
and one right behind the opening marks does not count.  At the end up to two
marks may stand before the closing three and belong to the text.

This is a part of the reader of TOML that stands for code from outside.
-/

namespace RouteTemplates
namespace Toml

def hexValue? (c : Char) : Option Nat :=
  if '0' ≤ c ∧ c ≤ '9' then some (c.toNat - '0'.toNat)
  else if 'a' ≤ c ∧ c ≤ 'f' then some (c.toNat - 'a'.toNat + 10)
  else if 'A' ≤ c ∧ c ≤ 'F' then some (c.toNat - 'A'.toNat + 10)
  else none

/-- The character with the code point written in the digits, if there is one. -/
def scalar? (digits : List Char) : Option Char := do
  let values ← digits.mapM hexValue?
  let n := values.foldl (fun n v => 16 * n + v) 0
  if n.isValidChar then some (Char.ofNat n) else none

/-- The character that a letter after a backslash stands for. -/
def escaped? : Char → Option Char
  | 'b' => some '\x08'
  | 't' => some '\t'
  | 'n' => some '\n'
  | 'f' => some '\x0c'
  | 'r' => some '\r'
  | '"' => some '"'
  | '\\' => some '\\'
  | _ => none

/-- The text up to the closing quotation mark. -/
def quotedLine : Reader Text
  | '"' :: rest => some ([], rest)
  | '\\' :: 'u' :: a :: b :: c :: d :: rest => do
    let x ← scalar? [a, b, c, d]
    let (text, rest) ← quotedLine rest
    return (x :: text, rest)
  | '\\' :: 'U' :: a :: b :: c :: d :: e :: f :: g :: h :: rest => do
    let x ← scalar? [a, b, c, d, e, f, g, h]
    let (text, rest) ← quotedLine rest
    return (x :: text, rest)
  | '\\' :: letter :: rest => do
    let x ← escaped? letter
    let (text, rest) ← quotedLine rest
    return (x :: text, rest)
  | c :: rest => do
    if isPlain c && c ≠ '\\' then
      let (text, rest) ← quotedLine rest
      return (c :: text, rest)
    else none
  | [] => none

/-- The text up to the closing apostrophe. -/
def literalLine : Reader Text
  | '\x27' :: rest => some ([], rest)
  | c :: rest => do
    if isPlain c then
      let (text, rest) ← literalLine rest
      return (c :: text, rest)
    else none
  | [] => none

/-- What three marks leave of a run of `mark` that they close: up to two more
belong to the text. -/
def closing (mark : Char) : Text → Text × Text
  | a :: b :: rest =>
    if a = mark ∧ b = mark then ([mark, mark], rest)
    else if a = mark then ([mark], b :: rest)
    else ([], a :: b :: rest)
  | [a] => if a = mark then ([mark], []) else ([], [a])
  | [] => ([], [])

/-- The text up to three closing quotation marks.  After a backslash at the end
of a line everything is skipped up to the next character that is neither space
nor line break, and `skipping` tells that this is under way. -/
def quotedLines (skipping : Bool) : Reader Text
  | '"' :: '"' :: '"' :: rest => some (closing '"' rest)
  | '\\' :: 'u' :: a :: b :: c :: d :: rest => do
    let x ← scalar? [a, b, c, d]
    let (text, rest) ← quotedLines false rest
    return (x :: text, rest)
  | '\\' :: 'U' :: a :: b :: c :: d :: e :: f :: g :: h :: rest => do
    let x ← scalar? [a, b, c, d, e, f, g, h]
    let (text, rest) ← quotedLines false rest
    return (x :: text, rest)
  | '\\' :: letter :: rest =>
    if (lineBreak? (skipSpaces (letter :: rest))).isSome then quotedLines true (letter :: rest)
    else do
      let x ← escaped? letter
      let (text, rest) ← quotedLines false rest
      return (x :: text, rest)
  | '\r' :: '\n' :: rest | '\n' :: rest =>
    if skipping then quotedLines true rest
    else do
      let (text, rest) ← quotedLines false rest
      return ('\n' :: text, rest)
  | c :: rest =>
    if skipping && isSpace c then quotedLines true rest
    else if isPlain c && c ≠ '\\' then do
      let (text, rest) ← quotedLines false rest
      return (c :: text, rest)
    else none
  | [] => none

/-- The text up to three closing apostrophes. -/
def literalLines : Reader Text
  | '\x27' :: '\x27' :: '\x27' :: rest => some (closing '\x27' rest)
  | '\r' :: '\n' :: rest | '\n' :: rest => do
    let (text, rest) ← literalLines rest
    return ('\n' :: text, rest)
  | c :: rest => do
    if isPlain c then
      let (text, rest) ← literalLines rest
      return (c :: text, rest)
    else none
  | [] => none

/-- Drops a line break right behind the opening marks. -/
def dropLineBreak (t : Text) : Text := (lineBreak? t).getD t

/-- A string on one line. -/
def singleLine : Reader Text
  | '"' :: rest => quotedLine rest
  | '\x27' :: rest => literalLine rest
  | _ => none

/-- A string of any kind. -/
def string : Reader Text
  | '"' :: '"' :: '"' :: rest => quotedLines false (dropLineBreak rest)
  | '\x27' :: '\x27' :: '\x27' :: rest => literalLines (dropLineBreak rest)
  | t => singleLine t

end Toml
end RouteTemplates
