/-
This file says which words are dates and times.

A moment is a date, a time, or both with a letter or a blank in between; with both there may
be an offset from universal time. The numbers must be those of a calendar and a clock. No
setting takes a moment, so only its form is of interest.
-/

import PomLens.Text.Read

namespace PomLens.Toml

open Text (Read require readWhile readMark)

/-- The value of some decimal digits. -/
def decimalValue (digits : List Char) : Nat :=
  digits.foldl (fun value digit => 10 * value + (digit.toNat - '0'.toNat)) 0

/-- Reads a run of digits, which must have this length, and gives its value. -/
def readDigits (length : Nat) : Read Nat := do
  let digits ← readWhile Char.isDigit
  require (digits.length == length)
  return decimalValue digits

/-- Reads a mark that must come next. -/
def expect (mark : String) : Read Unit := do
  require (← readMark mark)

/-- Reads one of two letters, and says whether there was one. -/
def readEither (first second : String) : Read Bool := do
  if ← readMark first then return true else readMark second

/-- A year with a day more in February. -/
def isLeapYear (year : Nat) : Bool :=
  year % 4 == 0 && (year % 100 != 0 || year % 400 == 0)

/-- The number of days of a month, which counts from one. There are none where there is no
such month. -/
def daysOf (year month : Nat) : Nat :=
  match month with
  | 2 => if isLeapYear year then 29 else 28
  | 4 | 6 | 9 | 11 => 30
  | 1 | 3 | 5 | 7 | 8 | 10 | 12 => 31
  | _ => 0

/-- Reads a date. -/
def readDate : Read Unit := do
  let year ← readDigits 4
  expect "-"
  let month ← readDigits 2
  expect "-"
  let day ← readDigits 2
  require (1 ≤ day && day ≤ daysOf year month)

/-- Reads an hour and a minute. -/
def readHourAndMinute : Read Unit := do
  let hour ← readDigits 2
  expect ":"
  let minute ← readDigits 2
  require (hour ≤ 23 && minute ≤ 59)

/-- Reads a time. Seconds may be left out, a leap second is one, and they may have a
fraction. -/
def readTime : Read Unit := do
  readHourAndMinute
  if ← readMark ":" then
    let second ← readDigits 2
    require (second ≤ 60)
    if ← readMark "." then
      let fraction ← readWhile Char.isDigit
      require !fraction.isEmpty

/-- Reads an offset, if there is one. -/
def readOffset : Read Unit := do
  if ← readEither "Z" "z" then return
  if ← readEither "+" "-" then readHourAndMinute

/-- Reads a date, and the time and the offset behind it where they are there. -/
def readDateAndTime : Read Unit := do
  readDate
  if !(← get).isEmpty then
    if !(← readEither "T" "t") then expect " "
    readTime
    readOffset

/-- Some reader takes the whole word. -/
def isReadBy (word : List Char) (reader : Read Unit) : Bool :=
  (reader.run word).any fun (_, rest) => rest.isEmpty

/-- The word is a date alone. -/
def isDate (word : List Char) : Bool :=
  isReadBy word readDate

/-- The word is a date, a time or both. -/
def isMoment (word : List Char) : Bool :=
  isReadBy word readDateAndTime || isReadBy word readTime

end PomLens.Toml
