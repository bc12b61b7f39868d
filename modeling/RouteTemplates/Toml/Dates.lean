import RouteTemplates.Toml.Numbers

/-!
# TOML dates and times

A date, a time of day, or both with a `T` or one space between them, and then
possibly the distance from universal time.  The date has to be in the calendar,
and a minute may have a leap second.

This is a part of the reader of TOML that stands for code from outside.
-/

namespace RouteTemplates
namespace Toml

/-- A number of exactly `n` decimal digits. -/
def fixedDigits (n : Nat) : Reader Nat := fun t => do
  let ds ← (t.take n).mapM (digitValue? 10)
  if ds.length = n then some (numeral 10 ds, t.drop n) else none

def isLeapYear (year : Nat) : Bool := year % 4 = 0 && (year % 100 ≠ 0 || year % 400 = 0)

def daysIn (year month : Nat) : Nat :=
  if month = 2 then if isLeapYear year then 29 else 28
  else if month ∈ [4, 6, 9, 11] then 30
  else 31

/-- The rest behind a date. -/
def date? (t : Text) : Option Text := do
  let (year, t) ← fixedDigits 4 t
  let (month, t) ← fixedDigits 2 (← ['-'].isPrefixOf? t)
  let (day, t) ← fixedDigits 2 (← ['-'].isPrefixOf? t)
  if 1 ≤ month ∧ month ≤ 12 ∧ 1 ≤ day ∧ day ≤ daysIn year month then some t else none

/-- The rest behind hours and minutes. -/
def hourAndMinute? (t : Text) : Option Text := do
  let (hour, t) ← fixedDigits 2 t
  let (minute, t) ← fixedDigits 2 (← [':'].isPrefixOf? t)
  if hour ≤ 23 ∧ minute ≤ 59 then some t else none

/-- The rest behind a time of day, which has seconds. -/
def time? (t : Text) : Option Text := do
  let t ← hourAndMinute? t
  let (second, t) ← fixedDigits 2 (← [':'].isPrefixOf? t)
  if second ≤ 60 then
    match t with
    | '.' :: c :: rest => if c.isDigit then some (rest.dropWhile Char.isDigit) else some t
    | _ => some t
  else none

/-- The rest behind the distance from universal time. -/
def offset? : Text → Option Text
  | c :: rest =>
    if c = 'Z' ∨ c = 'z' then some rest
    else if c = '+' ∨ c = '-' then hourAndMinute? rest
    else none
  | [] => none

/-- The rest behind what may follow a date. -/
def timeAfterDate? : Text → Option Text
  | c :: rest => do
    if c = 'T' ∨ c = 't' ∨ c = ' ' then
      let rest ← time? rest
      return (offset? rest).getD rest
    else none
  | [] => none

def dateTime : Reader Value := fun t =>
  let rest? := ((date? t).map fun rest => (timeAfterDate? rest).getD rest) <|> time? t
  rest?.map fun rest => (.dateTime, rest)

end Toml
end RouteTemplates
