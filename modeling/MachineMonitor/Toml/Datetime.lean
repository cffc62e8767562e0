import MachineMonitor.Numeral
import MachineMonitor.Toml.Blank

/-!
# Dates and times

A date, a time, or a date and a time with a `T` or a blank between them and perhaps an offset. All
fields have a fixed number of digits and are checked, days against the length of their month.
-/

namespace MachineMonitor.Toml

open Scan

/-- Reads a number of this many digits, which must lie between two bounds. -/
def fixedNumber (digits lo hi : Nat) : Scan Nat := do
  let ds ← exactly Char.isDigit digits
  let n ← StateT.lift (Numeral.natural? 10 ds)
  guard (lo ≤ n && n ≤ hi)
  return n

/-- Does the year have a leap day? -/
def isLeapYear (year : Nat) : Bool := year % 4 == 0 && (year % 100 != 0 || year % 400 == 0)

/-- The number of days of a month. -/
def daysOfMonth (year month : Nat) : Nat :=
  if month = 2 then (if isLeapYear year then 29 else 28)
  else if month ∈ [4, 6, 9, 11] then 30
  else 31

/-- Reads a date. -/
def date : Scan Unit := do
  let year ← fixedNumber 4 0 9999
  char '-'
  let month ← fixedNumber 2 1 12
  char '-'
  let _ ← fixedNumber 2 1 (daysOfMonth year month)

/-- Reads a fraction of a second. -/
def secondFraction : Scan Unit := do
  char '.'
  let ds ← span Char.isDigit
  guard !ds.isEmpty

/-- Reads a time of day, where a minute may have a leap second. -/
def timeOfDay : Scan Unit := do
  let _ ← fixedNumber 2 0 23
  char ':'
  let _ ← fixedNumber 2 0 59
  char ':'
  let _ ← fixedNumber 2 0 60
  let _ ← optional secondFraction

/-- Reads an offset from universal time. -/
def offset : Scan Unit := do
  let c ← one fun c => c == 'Z' || c == 'z' || c == '+' || c == '-'
  if c = '+' ∨ c = '-' then
    let _ ← fixedNumber 2 0 23
    char ':'
    let _ ← fixedNumber 2 0 59

/-- Reads the time that may follow a date. -/
def timeAfterDate : Scan Unit := do
  let _ ← one fun c => c == 'T' || c == 't' || c == ' '
  timeOfDay
  let _ ← optional offset

/-- Reads a date, a time or both. -/
def datetime : Scan Unit :=
  (do
    date
    let _ ← optional timeAfterDate) <|> timeOfDay

end MachineMonitor.Toml
