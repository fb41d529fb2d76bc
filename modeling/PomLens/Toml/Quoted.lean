/-
This file reads the strings of a settings file in their four spellings.

Double quotes take escapes and single quotes take none; tripled quotes may go on over several
lines. Control characters are refused, the tabulator apart.
-/

import PomLens.Text.Read

namespace PomLens.Toml

open Text (Read require readWhile readMark isLineBlank skipLineBlanks)

/-- Control characters, none of which may stand in a text, the tabulator apart. -/
def isControl (char : Char) : Bool :=
  (char.toNat < 0x20 && char != '\t') || char.toNat == 0x7F

/-! ### Strings -/

/-- The value of some hexadecimal digits. -/
def hexValue? (digits : List Char) : Option Nat :=
  digits.foldlM
    (fun value digit =>
      if digit.isDigit then some (16 * value + (digit.toNat - '0'.toNat))
      else
        let lower := digit.toLower
        if 'a' ≤ lower && lower ≤ 'f' then some (16 * value + (lower.toNat - 'a'.toNat + 10))
        else none)
    0

/-- The character with this code, unless the code is that of half a pair or too large. -/
def charOfCode? (code : Nat) : Option Char :=
  if code < 0xD800 || (0xE000 ≤ code && code < 0x110000) then some (Char.ofNat code) else none

/-- The character that an escape stands for, and what follows it. The text starts behind the
backslash. -/
def unescape? : List Char → Option (Char × List Char)
  | 'b' :: rest => some ('\x08', rest)
  | 't' :: rest => some ('\t', rest)
  | 'n' :: rest => some ('\n', rest)
  | 'f' :: rest => some ('\x0c', rest)
  | 'r' :: rest => some ('\r', rest)
  | 'e' :: rest => some ('\x1b', rest)
  | '"' :: rest => some ('"', rest)
  | '\\' :: rest => some ('\\', rest)
  | 'x' :: rest => coded 2 rest
  | 'u' :: rest => coded 4 rest
  | 'U' :: rest => coded 8 rest
  | _ => none
where
  coded (length : Nat) (text : List Char) : Option (Char × List Char) := do
    let digits := text.take length
    if digits.length < length then none
    else some (← charOfCode? (← hexValue? digits), text.drop length)

theorem length_unescape? {text rest : List Char} {char : Char}
    (escaped : unescape? text = some (char, rest)) : rest.length < text.length := by
  have coded {length : Nat} {after : List Char}
      (read : unescape?.coded length after = some (char, rest)) :
      rest.length ≤ after.length := by
    simp only [unescape?.coded, Option.bind_eq_bind] at read
    split at read
    · cases read
    · simp only [Option.bind_eq_some_iff, Option.some.injEq, Prod.mk.injEq] at read
      obtain ⟨_, _, _, _, _, rfl⟩ := read
      simp
  unfold unescape? at escaped
  split at escaped
  all_goals first
    | (simp only [Option.some.injEq, Prod.mk.injEq] at escaped
       obtain ⟨_, rfl⟩ := escaped
       simp)
    | exact Nat.lt_succ_of_le (coded escaped)
    | cases escaped

/-- The rest of a text in double quotes on one line, and what follows the closing quote. -/
def basicRest? (text : List Char) : Option (List Char × List Char) :=
  match text with
  | [] => none
  | '"' :: rest => some ([], rest)
  | '\\' :: rest =>
    match _escaped : unescape? rest with
    | none => none
    | some (char, after) => (basicRest? after).map fun (value, left) => (char :: value, left)
  | char :: rest =>
    if isControl char then none
    else (basicRest? rest).map fun (value, left) => (char :: value, left)
termination_by text.length
decreasing_by
  · have := length_unescape? _escaped
    simp
    omega
  · simp

/-- The rest of a text in single quotes on one line, and what follows the closing quote. -/
def literalRest? : List Char → Option (List Char × List Char)
  | [] => none
  | char :: rest =>
    if char = '\'' then some ([], rest)
    else if isControl char then none
    else (literalRest? rest).map fun (value, left) => (char :: value, left)

/-- What stands behind a line break, if the text starts with one. -/
def afterBreak? : List Char → Option (List Char)
  | '\n' :: rest => some rest
  | '\r' :: '\n' :: rest => some rest
  | _ => none

/-- What stands behind blanks and line breaks. -/
def skipBlankLines : List Char → List Char
  | [] => []
  | '\r' :: '\n' :: rest => skipBlankLines rest
  | char :: rest =>
    if isLineBlank char || char == '\n' then skipBlankLines rest else char :: rest

/-- Quotes at the end of a text of several lines: up to two belong to the text, the last
three close it. -/
def closeLong? (quote : Char) (text : List Char) : Option (List Char × List Char) :=
  let run := text.takeWhile (· == quote)
  if run.length < 3 then none
  else
    let belonging := min (run.length - 3) 2
    some (List.replicate belonging quote, text.drop (belonging + 3))

/-- The rest of a text of several lines between tripled quotes, and what follows it. In
double quotes a backslash starts an escape, or at the end of a line swallows all blanks and
line breaks up to the next text. -/
def longRest? (quote : Char) : Nat → List Char → Option (List Char × List Char)
  | 0, _ => none
  | _ + 1, [] => none
  | fuel + 1, char :: rest =>
    let keep (kept : List Char) (text : List Char) : Option (List Char × List Char) :=
      (longRest? quote fuel text).map fun (value, left) => (kept ++ value, left)
    if char = quote then
      match closeLong? quote (char :: rest) with
      | some closed => some closed
      | none => keep [char] rest
    else if char = '\\' && quote = '"' then
      match afterBreak? (rest.dropWhile isLineBlank) with
      | some after => keep [] (skipBlankLines after)
      | none =>
        match unescape? rest with
        | none => none
        | some (value, after) => keep [value] after
    else if char = '\r' then
      match rest with
      | '\n' :: after => keep ['\r', '\n'] after
      | _ => none
    else if char ≠ '\n' && isControl char then none
    else keep [char] rest

/-- Reads a string on one line. -/
def readShort : Read String := do
  let closed ←
    match ← get with
    | '"' :: rest => liftM (basicRest? rest)
    | '\'' :: rest => liftM (literalRest? rest)
    | _ => failure
  set closed.2
  return String.ofList closed.1

/-- Reads a string between tripled quotes. A line break right behind the opening ones does
not belong to it. -/
def readLong (quote : Char) : Read String := do
  let body := (← get).drop 3
  let body := (afterBreak? body).getD body
  let (value, rest) ← liftM (longRest? quote (body.length + 1) body)
  set rest
  return String.ofList value

/-- Reads a string in any spelling. -/
def readString : Read String := do
  match ← get with
  | '"' :: '"' :: '"' :: _ => readLong '"'
  | '\'' :: '\'' :: '\'' :: _ => readLong '\''
  | _ => readShort

end PomLens.Toml
