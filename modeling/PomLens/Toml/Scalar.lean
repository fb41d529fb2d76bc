/-
This file reads the values that are neither strings nor made of other values, and the keys of
a settings file.

What is not written as a settings file may write it is refused, so that a slip never changes
a setting unseen.
-/

import PomLens.Toml.Moment
import PomLens.Toml.Number
import PomLens.Toml.Quoted

namespace PomLens.Toml

open Text (Read require readWhile readMark isLineBlank skipLineBlanks)

/-! ### Words -/

/-- Reads a word of digits, given also what follows its sign: what stands behind the first
digits says whether it is an integer, a float or a moment. -/
def numeral? (word unsigned : List Char) : Option Value :=
  match unsigned.dropWhile Char.isDigit with
  | [] => if unsigned.isEmpty || hasLeadingZero unsigned then none else integer? word
  | mark :: rest =>
    if mark = '-' || mark = ':' then
      if isMoment word then some (.moment (String.ofList word)) else none
    else if (mark :: rest).any fun char => char == '.' || char == 'e' || char == 'E' then
      float? word unsigned
    else if mark = '_' && !hasLeadingZero unsigned then integer? word
    else none

/-- The value that a word stands for. -/
def wordValue? (word : List Char) : Option Value :=
  match word with
  | '0' :: 'x' :: digits => based? 16 digits
  | '0' :: 'o' :: digits => based? 8 digits
  | '0' :: 'b' :: digits => based? 2 digits
  | _ =>
    let (negative, unsigned) := splitSign word
    if word = "true".toList then some (.boolean true)
    else if word = "false".toList then some (.boolean false)
    else
      match namedFloat? unsigned with
      | some value => some (.float (some (if negative then -value else value)))
      | none => numeral? word unsigned

/-- What ends a word. Quotes do not. -/
def endsWord (char : Char) : Bool :=
  isLineBlank char || char == '\n' || char == '\r' || char == ',' || char == '=' ||
    char == '#' || char == '[' || char == ']' || char == '\x7b' || char == '\x7d'

/-- Reads a word. A time that follows a date after one space belongs to it. -/
def readWord : Read (List Char) := do
  let word ← readWhile fun char => !endsWord char
  match ← get with
  | ' ' :: first :: rest =>
    if isDate word && !endsWord first && first != '"' && first != '\'' then
      set (first :: rest)
      let time ← readWhile fun char => !endsWord char
      return word ++ ' ' :: time
    else return word
  | _ => return word

/-- Reads a value that is not a string, an array or a table. -/
def readScalar : Read Value := do
  let word ← readWord
  liftM (wordValue? word)

/-! ### Keys -/

/-- The characters of a key without quotes. -/
def isBareKeyChar (char : Char) : Bool :=
  char.isAlphanum || char == '_' || char == '-'

/-- Reads one part of a key. -/
def readKeyPart : Read String := do
  match ← get with
  | '"' :: _ | '\'' :: _ => readShort
  | _ =>
    let name ← readWhile isBareKeyChar
    require !name.isEmpty
    return String.ofList name

/-- Reads the parts of a dotted key, of which `count` bounds the number, with the blanks
around them. -/
def readKeyParts (count : Nat) : Read (List String) := do
  match count with
  | 0 => failure
  | count + 1 =>
    skipLineBlanks
    let part ← readKeyPart
    skipLineBlanks
    if ← readMark "." then return part :: (← readKeyParts count)
    else return [part]

/-- The largest number of parts of a key. -/
def keyLimit : Nat := 80

/-- Reads a key: its first part and the further ones. -/
def readKey : Read (String × List String) := do
  match ← readKeyParts ((← get).length + 1) with
  | [] => failure
  | first :: rest =>
    require (rest.length < keyLimit)
    return (first, rest)

end PomLens.Toml
