import RouteTemplates.Toml.Strings
import RouteTemplates.Toml.Value

/-!
# TOML numbers

Digits may be grouped by single underscores.  An integer is signed and decimal,
without leading zeros, or unsigned and in base 16, 8 or 2, and has to fit into
64 bits.  A float has a fraction or an exponent, or is one of two words.  One
that is too large for the binary format of 64 bits is refused if it is
positive; below zero it stands for minus infinity.

This is a part of the reader of TOML that stands for code from outside.
-/

namespace RouteTemplates
namespace Toml

def digitValue? (base : Nat) (c : Char) : Option Nat := (hexValue? c).filter (· < base)

/-- Digits behind the first one.  An underscore needs a digit on both sides. -/
def moreDigits (base : Nat) : Text → List Nat × Text
  | [] => ([], [])
  | [c] =>
    match digitValue? base c with
    | some v => ([v], [])
    | none => ([], [c])
  | c :: d :: rest =>
    match digitValue? base c with
    | some v => let (vs, rest) := moreDigits base (d :: rest); (v :: vs, rest)
    | none =>
      if c = '_' ∧ (digitValue? base d).isSome then moreDigits base (d :: rest)
      else ([], c :: d :: rest)

/-- Digits, at least one. -/
def digits (base : Nat) : Reader (List Nat)
  | c :: rest => do
    let v ← digitValue? base c
    let (vs, rest) := moreDigits base rest
    return (v :: vs, rest)
  | [] => none

/-- The number that digits write. -/
def numeral (base : Nat) (ds : List Nat) : Nat := ds.foldl (fun n d => base * n + d) 0

/-- A sign, if there is one, and whether it is a minus. -/
def sign : Text → Bool × Text
  | '-' :: rest => (true, rest)
  | '+' :: rest => (false, rest)
  | t => (false, t)

/-- Decimal digits without a leading zero. -/
def wholeDigits : Reader (List Nat)
  | '0' :: rest => some ([0], rest)
  | t => digits 10 t

def largestInteger : Nat := Nat.pow 2 63 - 1

def integerIn (base : Nat) : Reader Value := fun t => do
  let (ds, rest) ← digits base t
  let n := numeral base ds
  if n ≤ largestInteger then some (.integer n, rest) else none

def integer : Reader Value
  | '0' :: 'x' :: rest => integerIn 16 rest
  | '0' :: 'o' :: rest => integerIn 8 rest
  | '0' :: 'b' :: rest => integerIn 2 rest
  | t => do
    let (negative, t) := sign t
    let (ds, rest) ← wholeDigits t
    let n := numeral 10 ds
    if negative then if n ≤ largestInteger + 1 then some (.integer (-n), rest) else none
    else if n ≤ largestInteger then some (.integer n, rest) else none

/-- Whether `digits` times ten to the `exponent` is rounded to infinity, that is,
lies at or above the middle between the largest finite float and the next power
of two.  The count of the digits settles all but the numbers of one order of
magnitude, so no large power is ever computed. -/
def overflows (digits : List Nat) (exponent : Int) : Bool :=
  let digits := digits.dropWhile (· = 0)
  let n := numeral 10 digits
  let bound := Nat.pow 2 1024 - Nat.pow 2 970
  let magnitude := digits.length + exponent
  if digits = [] then false
  else if magnitude = 309 then
    bound * Nat.pow 10 (-exponent).toNat ≤ n * Nat.pow 10 exponent.toNat
  else 309 < magnitude

/-- The digits of a fraction. -/
def fraction : Reader (List Nat)
  | '.' :: rest => digits 10 rest
  | _ => none

def exponent : Reader Int
  | c :: rest => do
    if c = 'e' ∨ c = 'E' then
      let (negative, rest) := sign rest
      let (ds, rest) ← digits 10 rest
      let n : Int := numeral 10 ds
      return (if negative then -n else n, rest)
    else none
  | [] => none

def float : Reader Value := fun t => do
  let (negative, t) := sign t
  match "inf".toList.isPrefixOf? t <|> "nan".toList.isPrefixOf? t with
  | some rest => return (.float, rest)
  | none =>
    let (whole, afterWhole) ← wholeDigits t
    let part := fraction afterWhole
    let (partDigits, afterPart) := part.getD ([], afterWhole)
    let power := exponent afterPart
    let (shift, rest) := power.getD (0, afterPart)
    if part.isNone && power.isNone then none
    else if !negative && overflows (whole ++ partDigits) (shift - partDigits.length) then none
    else return (.float, rest)

end Toml
end RouteTemplates
