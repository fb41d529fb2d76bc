/-
This file reads the numbers of a settings file.

A number is read in two steps. A word must have the form of a number, or the whole file is
refused. The form lets a few words pass that have no value, such as an integer too long for
its digits or a letter between groups of digits; they are refused by the setting that is
given them.
-/

import PomLens.Text.Read
import PomLens.Toml.Value

namespace PomLens.Toml

open Text (Read require readWhile readMark)

/-! ### Digits -/

/-- A digit in a base up to 36. -/
def isDigitIn (base : Nat) (char : Char) : Bool :=
  (char.isDigit && char.toNat - '0'.toNat < base) ||
    ('a' ≤ char.toLower && char.toLower ≤ 'z' && char.toLower.toNat - 'a'.toNat + 10 < base)

/-- The value of some digits in a base up to 36. -/
def baseValue (base : Nat) (digits : List Char) : Nat :=
  digits.foldl
    (fun value digit =>
      let lower := digit.toLower
      base * value +
        (if digit.isDigit then digit.toNat - '0'.toNat else lower.toNat - 'a'.toNat + 10))
    0

/-- The sign of a number and what follows it. -/
def splitSign : List Char → Bool × List Char
  | '-' :: rest => (true, rest)
  | '+' :: rest => (false, rest)
  | text => (false, text)

/-- A zero in front of other characters. -/
def hasLeadingZero : List Char → Bool
  | '0' :: _ :: _ => true
  | _ => false

/-- The group ends in a digit, or is no longer than one character, such as a sign. -/
def mayPrecede (isDigit : Char → Bool) (group : List Char) : Bool :=
  group.length ≤ 1 || (group.getLast?).any isDigit

/-- A word without the underscores in it. Each must stand in front of a digit and behind
one, and none may stand first. -/
def joinGroups? (isDigit : Char → Bool) (word : List Char) : Option (List Char) :=
  match Text.splitOn (· == '_') word with
  | [] | [_] => some word
  | first :: rest =>
    let groups := first :: rest
    if !first.isEmpty && (rest.all fun group => (group.head?).any isDigit) &&
        groups.dropLast.all (mayPrecede isDigit) then
      some groups.flatten
    else none

/-! ### Integers -/

/-- The value of an integer in a base, if what follows its sign is digits. -/
def integerValue? (base : Nat) (word : List Char) : Option Int :=
  let (negative, digits) := splitSign word
  if digits.isEmpty || !(digits.all (isDigitIn base)) then none
  else
    let value : Int := baseValue base digits
    some (if negative then -value else value)

/-- Reads an integer from behind the letter for its base. -/
def based? (base : Nat) (word : List Char) : Option Value := do
  if word.all fun char => isDigitIn base char || char == '_' then
    some (.integer (integerValue? base (← joinGroups? (isDigitIn 16) word)))
  else none

/-- Reads a decimal integer. -/
def integer? (word : List Char) : Option Value := do
  some (.integer (integerValue? 10 (← joinGroups? (isDigitIn 16) word)))

/-! ### Floats -/

/-- Powers of ten past this bound leave the range of floats whatever digits they scale,
given how many digits there are. -/
def exponentBound : Nat := 400

/-- The float nearest to `digits` scaled by a power of ten, if it is finite. -/
def scaled? (digits : List Char) (exponent : Int) : Option Float :=
  let mantissa := baseValue 10 digits
  let size : Int := digits.length
  if mantissa = 0 then some 0.0
  else if exponent > exponentBound then none
  else if exponent + size < -(exponentBound : Int) then some 0.0
  else
    let value := Float.ofScientific mantissa (exponent < 0) exponent.natAbs
    if value.isInf then none else some value

/-- The float that is meant by digits with or without a fraction and an exponent, if it is
finite. -/
def floatValue? (word : List Char) : Option Float := do
  let (negative, rest) := splitSign word
  let (number, power) :=
    (Text.splitOnce? (fun char => char == 'e' || char == 'E') rest).getD (rest, ['0'])
  let (whole, fraction) := (Text.splitOnce? (· == '.') number).getD (number, [])
  let exponent ← integerValue? 10 power
  let magnitude ← scaled? (whole ++ fraction) (exponent - fraction.length)
  some (if negative then -magnitude else magnitude)

/-- Reads digits with underscores between them. There must be a digit, and a zero in front
of others only where it is allowed. -/
def readDigitGroups (zeroAllowed : Bool) : Read Unit := do
  let run ← readWhile fun char => char.isDigit || char == '_'
  let count := run.countP Char.isDigit
  require (1 ≤ count && (zeroAllowed || count == 1 || run.head? != some '0'))

/-- Reads a number without its sign in the form of a float. -/
def readFloatForm : Read Unit := do
  readDigitGroups false
  if ← readMark "." then readDigitGroups true
  match ← get with
  | 'e' :: rest | 'E' :: rest =>
    set (splitSign rest).2
    readDigitGroups true
  | _ => return

/-- Reads a float, given also what follows its sign. -/
def float? (word unsigned : List Char) : Option Value := do
  let (_, rest) ← readFloatForm unsigned
  if rest.isEmpty then some (.float (floatValue? (← joinGroups? Char.isDigit word))) else none

/-- The float that is not finite, given its name. -/
def namedFloat? (name : List Char) : Option Float :=
  if name = "inf".toList then some (1.0 / 0.0)
  else if name = "nan".toList then some (0.0 / 0.0)
  else none

end PomLens.Toml
