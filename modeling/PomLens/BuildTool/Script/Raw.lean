/-
This file defines raw texts: what a script reads and writes.

A script knows nothing of characters that take several bytes. A raw text has one character
for each byte, so the length of a text, its first part and the order of two texts are those
of its bytes, and every sequence of bytes has a raw text.
-/

import PomLens.Text.Read
import PomLens.Text.Utf8

namespace PomLens.Script

/-- A text with one character for each byte. -/
abbrev Raw := List Char

namespace Raw

def ofBytes (bytes : List UInt8) : Raw :=
  bytes.map fun byte => Char.ofNat byte.toNat

def toBytes (raw : Raw) : List UInt8 :=
  raw.map fun char => UInt8.ofNat char.toNat

/-- The raw text of a text. -/
def ofString (text : String) : Raw :=
  ofBytes text.toUTF8.toList

/-- The text that is meant by a raw text, with a mark for what means none. -/
def toString (raw : Raw) : String :=
  Text.ofBytes (toBytes raw)

/-- The text that is meant by a raw text, if it means one throughout. -/
def text? (raw : Raw) : Option String :=
  Text.ofBytes? (toBytes raw)

/-- The decimal digits of a number. -/
def ofNat (number : Nat) : Raw :=
  (Nat.repr number).toList

def ofInt (number : Int) : Raw :=
  if number < 0 then '-' :: ofNat number.natAbs else ofNat number.natAbs

/-- The number that some decimal digits mean, if they are nothing else. -/
def nat? (raw : Raw) : Option Nat :=
  if raw.isEmpty || !(raw.all Char.isDigit) then none
  else some (raw.foldl (fun value digit => 10 * value + (digit.toNat - '0'.toNat)) 0)

/-- The lines of a text without their ends. What stands behind the last end is a line only
if it is not empty. -/
def lines (raw : Raw) : List Raw :=
  let parts := Text.splitOn (· == '\n') raw
  if parts.getLast? == some [] then parts.dropLast else parts

/-- The text of lines, each with an end. -/
def ofLines (lines : List Raw) : Raw :=
  lines.flatMap fun line => line ++ ['\n']

/-- Texts with a separator between them. -/
def join (separator : Raw) : List Raw → Raw
  | [] => []
  | [last] => last
  | first :: rest => first ++ separator ++ join separator rest

/-- The order of texts is that of their bytes. -/
def le : Raw → Raw → Bool
  | [], _ => true
  | _ :: _, [] => false
  | first :: rest, other :: others =>
    first.toNat < other.toNat || (first == other && le rest others)

/-- The first text stands in the second. -/
def isWithin (part whole : Raw) : Bool :=
  match whole with
  | [] => part.isEmpty
  | _ :: rest => part.isPrefixOf whole || isWithin part rest

end Raw

/-- What counts as a blank in a table of characters. -/
def isSpace (char : Char) : Bool :=
  Text.isLineBlank char || ('\n' ≤ char && char ≤ '\r')

/-- A character of a name, its first one apart. -/
def isNameChar (char : Char) : Bool :=
  char.isAlphanum || char == '_'

/-- A name that a variable can have. -/
def isName (name : Raw) : Bool :=
  match name with
  | [] => false
  | first :: _ => !first.isDigit && name.all isNameChar

end PomLens.Script
