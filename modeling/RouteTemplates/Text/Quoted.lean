import RouteTemplates.Text.Basic
import RouteTemplates.Text.DefaultIgnorable
import RouteTemplates.Text.ExtendingMark
import RouteTemplates.Text.Unprintable

/-!
# Quoted texts

A quoted text can be read back and shows every character it holds.  The quote
mark and the backslash are escaped, a few control characters have a letter, and
whatever would be invisible or would lean on its neighbour is written as a code
point in braces.  A single character is quoted the same way in the other mark,
and each form leaves the mark of the other alone.
-/

namespace RouteTemplates
namespace Text

/-- The letter that stands for the character after a backslash, in either kind
of quote. -/
def shortEscape? (c : Char) : Option Char :=
  if c = '\x00' then some '0'
  else if c = '\t' then some 't'
  else if c = '\r' then some 'r'
  else if c = '\n' then some 'n'
  else if c = '\\' then some '\\'
  else none

/-- The code point of the character in lower-case hexadecimal, in braces. -/
def codePointEscape (c : Char) : Text :=
  ['\\', 'u', '\x7b'] ++ Nat.toDigits 16 c.toNat ++ ['\x7d']

/-- Whether the character would not be seen, or not in its own place. -/
def isHidden (c : Char) : Bool :=
  isUnprintable c || isExtendingMark c || isDefaultIgnorable c

/-- How a character stands between two marks. -/
def escapeChar (mark c : Char) : Text :=
  match shortEscape? c with
  | some letter => ['\\', letter]
  | none =>
    if c = mark then ['\\', c]
    else if isHidden c then codePointEscape c
    else [c]

def quoted (t : Text) : Text :=
  '"' :: (t.flatMap (escapeChar '"') ++ ['"'])

def quotedChar (c : Char) : Text :=
  '\x27' :: (escapeChar '\x27' c ++ ['\x27'])

end Text
end RouteTemplates
