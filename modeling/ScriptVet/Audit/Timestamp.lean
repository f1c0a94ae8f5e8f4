import ScriptVet.Text

namespace ScriptVet.Audit

namespace Calendar

def isLeap (year : Nat) : Bool := year % 4 = 0 && (year % 100 ≠ 0 || year % 400 = 0)

def monthLengths (year : Nat) : List Nat :=
  [31, if isLeap year then 29 else 28, 31, 30, 31, 30, 31, 31, 30, 31, 30, 31]

/-- The year of a day, counted from the first day of year 1, and the day's number in it from 0.
Cycles of 400, 100, 4 years and single years are taken off in turn; a cycle's last part may be a day
longer than the others. -/
def yearAndDay (days : Nat) : Nat × Nat :=
  let d := days % 146097
  let centuries := min (d / 36524) 3
  let d := d - 36524 * centuries
  let fours := d / 1461
  let d := d % 1461
  let years := min (d / 365) 3
  (400 * (days / 146097) + 100 * centuries + 4 * fours + years + 1, d - 365 * years)

/-- The month that holds a day of the year, and the day's number in it from 1, where the months from
`month` on have the given lengths. -/
def monthAndDay (month : Nat) : List Nat → Nat → Nat × Nat
  | [], day => (month, day + 1)
  | length :: rest, day =>
    if day < length then (month, day + 1) else monthAndDay (month + 1) rest (day - length)

/-- The days from the first day of year 1 to the first day of 1970. -/
def epoch : Nat := 719162

/-- The days from the first day of year 1 to the first day of `year`. -/
def daysBefore (year : Nat) : Nat :=
  365 * (year - 1) + (year - 1) / 4 - (year - 1) / 100 + (year - 1) / 400

/-- The number of a day, counted from 0 at the first day of year 1. -/
def dayNumber (year month day : Nat) : Nat :=
  daysBefore year + ((monthLengths year).take (month - 1)).foldr (· + ·) 0 + (day - 1)

/-- The calendar has such a day. -/
def isDay (year month day : Nat) : Bool :=
  1 ≤ year && 1 ≤ month && 1 ≤ day && ((monthLengths year)[month - 1]?).any (day ≤ ·)

end Calendar

/-- Nanoseconds since the beginning of 1970. -/
abbrev Timestamp := Int

namespace Timestamp

/-- Whole seconds, a broken one rounded toward the epoch. -/
def seconds (t : Timestamp) : Int := t.tdiv 1000000000

/-- What whole milliseconds there are beyond the whole seconds; before the epoch they count
backwards. -/
def milliseconds (t : Timestamp) : Int := t.tdiv 1000000 - 1000 * seconds t

def numeral (width n : Nat) : Text := .zeroPadded width (.decimal n)

def dateText (days : Nat) : Text :=
  let (year, day) := Calendar.yearAndDay days
  let (month, day) := Calendar.monthAndDay 1 (Calendar.monthLengths year) day
  numeral 4 year ++ .ascii "-" ++ numeral 2 month ++ .ascii "-" ++ numeral 2 day

def timeText (second : Nat) : Text :=
  numeral 2 (second / 3600) ++ .ascii ":" ++ numeral 2 (second / 60 % 60) ++ .ascii ":" ++
    numeral 2 (second % 60)

/-- The date, the time of day to the second, and the milliseconds. -/
def render (t : Timestamp) : Text :=
  dateText (seconds t / 86400 + Calendar.epoch).toNat ++ .ascii "T" ++
    timeText (seconds t % 86400).toNat ++ .ascii "." ++
    .zeroPadded 3 (.signedDecimal (milliseconds t)) ++ .ascii "Z"

/-- The byte at every place of a written timestamp that holds no digit. -/
def marks : List (Nat × UInt8) :=
  [(4, Text.byte '-'), (7, Text.byte '-'), (10, Text.byte 'T'), (13, Text.byte ':'),
    (16, Text.byte ':'), (19, Text.byte '.'), (23, Text.byte 'Z')]

/-- Reads a date and time back, as milliseconds since the beginning of 1970. -/
def read? (t : Text) : Option Int := do
  let number (start width : Nat) := Text.natural? ((t.drop start).take width)
  let year ← number 0 4
  let month ← number 5 2
  let day ← number 8 2
  let hour ← number 11 2
  let minute ← number 14 2
  let second ← number 17 2
  let millisecond ← number 20 3
  if t.length = 24 ∧ marks.all (fun m => t[m.1]? = some m.2) ∧ Calendar.isDay year month day ∧
      hour < 24 ∧ minute < 60 ∧ second < 60 then
    let days : Int := Calendar.dayNumber year month day - Calendar.epoch
    return (days * 86400 + (hour * 3600 + minute * 60 + second : Nat)) * 1000 + millisecond
  else none

end Timestamp

end ScriptVet.Audit
