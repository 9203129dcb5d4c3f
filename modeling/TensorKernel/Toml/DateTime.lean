import TensorKernel.Toml.Number

/-!
# Dates and times

A date, a time of day, or both with a `T` or a space between them and perhaps an
offset from universal time. Dates have to exist in the Gregorian calendar, and
a second may be a leap second. Like that of floating-point numbers, the value
is not kept.
-/

namespace TensorKernel.Toml

open Reader

/-- A number of exactly `digits` digits in a range. -/
def fixedNumber (digits least greatest : Nat) : Reader Nat := do
  let n := digitsValue 10 (← exactly digits Char.isDigit)
  if least ≤ n && n ≤ greatest then return n else failure

def isLeapYear (year : Nat) : Bool := year % 4 == 0 && (year % 100 != 0 || year % 400 == 0)

def daysInMonth (year month : Nat) : Nat :=
  match month with
  | 2 => if isLeapYear year then 29 else 28
  | 4 | 6 | 9 | 11 => 30
  | _ => 31

def date : Reader Unit := do
  let year ← fixedNumber 4 0 9999
  char '-'
  let month ← fixedNumber 2 1 12
  char '-'
  let _ ← fixedNumber 2 1 (daysInMonth year month)

def hourAndMinute : Reader Unit := do
  let _ ← fixedNumber 2 0 23
  char ':'
  let _ ← fixedNumber 2 0 59

def time : Reader Unit := do
  hourAndMinute
  char ':'
  let _ ← fixedNumber 2 0 60
  let _ ← optional do
    char '.'
    verified (run Char.isDigit) fun digits => !digits.isEmpty

def offset : Reader Unit :=
  char 'Z' <|> char 'z' <|> (char '+' <|> char '-') *> hourAndMinute

def dateTime : Reader Unit :=
  (do
    date
    let _ ← optional do
      char 'T' <|> char 't' <|> char ' '
      time
      optional offset)
  <|> time

end TensorKernel.Toml
