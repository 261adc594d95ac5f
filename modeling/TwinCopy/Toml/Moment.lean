import TwinCopy.Toml.Text

/-!
# Dates and times

A date, a time, or a date and a time with or without an offset. Seconds and their fraction may be
left out.
-/

namespace TwinCopy.Toml

/-- Two digits that write a number up to a bound. -/
def twoDigits? (bound : Nat) : List Char → Option (Nat × List Char)
  | a :: b :: rest =>
      let n := ofDigits 10 [a, b]
      if isDigit a && isDigit b && n ≤ bound then some (n, rest) else none
  | _ => none

/-- A year of the Gregorian calendar with a day more than others. -/
def isLeapYear (year : Nat) : Bool :=
  year % 4 == 0 && (year % 100 != 0 || year % 400 == 0)

/-- The last day of a month. -/
def daysInMonth (year month : Nat) : Nat :=
  if month = 2 then if isLeapYear year then 29 else 28
  else if month = 4 ∨ month = 6 ∨ month = 9 ∨ month = 11 then 30
  else 31

/-- Skips a date. -/
def skipDate : List Char → Option (List Char)
  | a :: b :: c :: d :: '-' :: rest => do
      guard ([a, b, c, d].all isDigit)
      let (month, rest) ← twoDigits? 12 rest
      match rest with
      | '-' :: rest =>
          let (day, rest) ← twoDigits? (daysInMonth (ofDigits 10 [a, b, c, d]) month) rest
          guard (month ≠ 0 ∧ day ≠ 0)
          return rest
      | _ => none
  | _ => none

/-- Skips a time. The last second of a minute may be a leap second. -/
def skipTime (cs : List Char) : Option (List Char) := do
  let (_, rest) ← twoDigits? 23 cs
  let ':' :: rest := rest | none
  let (_, rest) ← twoDigits? 59 rest
  let ':' :: rest := rest | return rest
  let (_, rest) ← twoDigits? 60 rest
  let '.' :: rest := rest | return rest
  let fraction := rest.takeWhile isDigit
  guard !fraction.isEmpty
  return rest.drop fraction.length

/-- Skips the offset of a time from universal time. -/
def skipOffset : List Char → Option (List Char)
  | [] => some []
  | c :: rest => do
      if c = 'Z' ∨ c = 'z' then return rest
      guard (c = '+' ∨ c = '-')
      let (_, rest) ← twoDigits? 23 rest
      let ':' :: rest := rest | none
      let (_, rest) ← twoDigits? 59 rest
      return rest

/-- Whether all of a text is a date, a time, or both. -/
def isMoment (cs : List Char) : Bool :=
  match skipDate cs with
  | some [] => true
  | some (c :: rest) =>
      (c == 'T' || c == 't' || c == ' ') && (skipTime rest >>= skipOffset) == some []
  | none => skipTime cs == some []

end TwinCopy.Toml
