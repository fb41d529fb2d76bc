/-
This file defines what the utility that edits lines can be told, and reads it.

A text of edits is a list of commands. Each of them may have addresses, which say on which
lines it acts, and commands may stand in groups, which count as one. A fault in the text is
reported with the number of characters that were read.
-/

import PomLens.BuildTool.Script.Regex

namespace PomLens.Script.LineEdit

/-! ### Commands -/

/-- What says on which lines a command acts. -/
inductive Address
  | line (number : Nat)
  | last
  /-- Lines that match. Without an expression, the one that was used last counts. -/
  | matching (regex : Option Regex)
  /-- Every so many lines from one on. -/
  | every (first step : Nat)
  /-- Up to so many lines behind the first line of a range. -/
  | further (count : Nat)
  /-- Up to the next multiple of a number. -/
  | multiple (number : Nat)

/-- A part of what a match is replaced by. -/
inductive Part
  | text (chars : Raw)
  | group (number : Nat)
  /-- Changes the case of what follows. -/
  | casing (letter : Char)

/-- How matches are replaced. -/
structure Substitution where
  regex : Option Regex
  parts : List Part
  everywhere : Bool
  /-- The number of the match that is replaced, or the first of those that are. -/
  number : Nat
  /-- The line is printed if something was replaced. -/
  prints : Bool
  file : Option Raw

inductive Action
  /-- Opens a group that ends before the command with this number. -/
  | openGroup (stop : Nat)
  | closeGroup
  | substitute (substitution : Substitution)
  | exchangeChars (pairs : List (Char × Char))
  | append (text : Raw)
  | insert (text : Raw)
  | change (text : Raw)
  /-- Goes on at a label, or at the end. -/
  | jump (label : Raw)
  /-- Goes on at a label if something was replaced. -/
  | jumpIf (replaced : Bool) (label : Raw)
  | label (name : Raw)
  | readFile (name : Raw)
  | writeFile (name : Raw)
  | quit (silent : Bool) (status : Nat)
  /-- A command that is only a letter. -/
  | plain (letter : Char)

structure Command where
  first : Option Address
  second : Option Address
  negated : Bool
  action : Action

/-! ### Reading -/

/-- The state of reading: what is left, how much was read, and the commands so far. -/
structure Reader where
  text : Raw
  count : Nat
  commands : Array Command
  /-- The numbers of the commands that opened the groups at hand. -/
  groups : List Nat

abbrev Read := StateT Reader (Except (Nat × String))

/-- Fails after the characters that were read. -/
def fail {α : Type} (message : String) : Read α := do
  throw ((← get).count, message)

def peek? : Read (Option Char) := do
  return (← get).text.head?

def skip (count : Nat) : Read Unit :=
  modify fun reader =>
    let passed := min count reader.text.length
    { reader with text := reader.text.drop count, count := reader.count + passed }

def takeWhile (accepts : Char → Bool) : Read Raw := do
  let run := (← get).text.takeWhile accepts
  skip run.length
  return run

/-- Reads up to a mark that is not behind a backslash and, in an expression, not in brackets.
A backslash in front of the mark falls away, and so does one in front of the end of a line.
`bracket` says how much of a list in brackets has been read: nothing, only its opening, or
more. -/
def upTo? (mark : Char) (isRegex : Bool) (bracket : Nat) : Raw → Option (Raw × Nat)
  | [] => none
  | '\\' :: char :: rest =>
    let kept :=
      if char = mark then if !isRegex && char = '&' then ['\\', char] else [char]
      else if char = '\n' then (if isRegex then [char] else ['\\', char])
      else if char = 'n' && isRegex then ['\n']
      else ['\\', char]
    (upTo? mark isRegex bracket rest).map fun (text, count) => (kept ++ text, count + 2)
  | char :: rest =>
    if char = mark && bracket = 0 then some ([], 1)
    else if char = '\n' && isRegex then none
    else
      let next :=
        if !isRegex then 0
        else if bracket = 0 then if char = '[' then 1 else 0
        else if char = ']' && bracket > 1 then 0
        else if char = '^' && bracket = 1 then 1
        else 2
      (upTo? mark isRegex next rest).map fun (text, count) => (char :: text, count + 1)

/-- Reads up to a mark, or fails at the end of the text. -/
def delimited (mark : Char) (isRegex : Bool) (message : String) : Read Raw := do
  match upTo? mark isRegex 0 (← get).text with
  | some (text, count) =>
    skip count
    return text
  | none =>
    let text := (← get).text
    match if isRegex then upTo? mark false 0 text else none with
    | some (text, count) =>
      skip count
      return text
    | none =>
      let left := (← get).text.length
      skip left
      fail message

/-- The expression of a text, or none for an empty one. -/
def compile (dialect : Regex.Dialect) (text : Raw) : Read (Option Regex) := do
  if text.isEmpty then return none
  match Regex.parse dialect text with
  | .ok regex => return some regex
  | .error message => fail message

def readNumber : Read Nat := do
  return (Raw.nat? (← takeWhile Char.isDigit)).getD 0

/-- Reads an address, if there is one. -/
def readAddress? (dialect : Regex.Dialect) (isSecond : Bool) : Read (Option Address) := do
  let ofMark (mark : Char) : Read (Option Address) := do
    let text ← delimited mark true "unterminated address regex"
    let letters ← takeWhile fun char => char == 'I' || char == 'M'
    let regex ← compile { dialect with folded := letters.contains 'I' } text
    return some (.matching regex)
  match (← get).text with
  | '$' :: _ =>
    skip 1
    return some .last
  | '/' :: _ =>
    skip 1
    ofMark '/'
  | '\\' :: mark :: _ =>
    skip 2
    ofMark mark
  | '+' :: _ =>
    if !isSecond then return none
    skip 1
    return some (.further (← readNumber))
  | '~' :: _ =>
    if !isSecond then return none
    skip 1
    return some (.multiple (← readNumber))
  | char :: _ =>
    if !char.isDigit then return none
    let number ← readNumber
    if (← peek?) = some '~' then
      skip 1
      return some (.every number (← readNumber))
    else return some (.line number)
  | [] => return none

/-- The character that is meant by one behind a backslash. -/
def escaped (char : Char) : Char :=
  match char with
  | 'a' => '\x07'
  | 'f' => '\x0c'
  | 'n' => '\n'
  | 'r' => '\r'
  | 't' => '\t'
  | 'v' => '\x0b'
  | _ => char

/-- The text behind a command that adds one: without blanks in front, up to the end of a line
that has no backslash before it. -/
def addedText : Read Raw := do
  let _ ← takeWhile Text.isLineBlank
  match (← get).text with
  | [] => fail s!"expected \\ after `a', `c' or `i'"
  | '\\' :: rest =>
    let behind := rest.dropWhile Text.isLineBlank
    match behind with
    | '\n' :: _ => skip (1 + (rest.length - behind.length) + 1)
    | _ => skip 1
  | _ => pure ()
  let text := (← get).text
  if text.isEmpty then return []
  let (added, count) := go text
  skip count
  return added ++ ['\n']
where
  go : Raw → Raw × Nat
    | [] => ([], 0)
    | '\n' :: _ => ([], 1)
    | ['\\'] => ([], 1)
    | '\\' :: char :: rest =>
      let (text, count) := go rest
      (escaped char :: text, count + 2)
    | char :: rest =>
      let (text, count) := go rest
      (char :: text, count + 1)

/-- The parts of what a match is replaced by. The characters of a text are collected with the
latest first. -/
def parts (pending : Raw) : Raw → List Part
  | [] => done pending
  | '\\' :: char :: rest =>
    if char.isDigit then done pending ++ .group (char.toNat - '0'.toNat) :: parts [] rest
    else if "LUElu".toList.contains char then done pending ++ .casing char :: parts [] rest
    else parts (escaped char :: pending) rest
  | '&' :: rest => done pending ++ .group 0 :: parts [] rest
  | char :: rest => parts (char :: pending) rest
where
  done (pending : Raw) : List Part :=
    if pending.isEmpty then [] else [.text pending.reverse]

/-- The letters and the number behind a replacement, and the name of a file. `fuel` bounds the
number of letters. -/
def readFlags (fuel : Nat) (letters : List Char) (number : Option Nat) :
    Read (List Char × Option Nat × Option Raw) := do
  match fuel with
  | 0 => return (letters, number, none)
  | fuel + 1 =>
    match ← peek? with
    | none => return (letters, number, none)
    | some char =>
      if char.isDigit then
        let given ← readNumber
        if number.isSome then fail "multiple number options to `s' command"
        if given = 0 then fail "number option to `s' command may not be zero"
        readFlags fuel letters (some given)
      else if "gpiIMme".toList.contains char then
        skip 1
        if (char = 'g' || char = 'p') && letters.contains char then
          fail s!"multiple `{char}' options to `s' command"
        readFlags fuel (char :: letters) number
      else if char = 'w' then
        skip 1
        let _ ← takeWhile Text.isLineBlank
        let name ← takeWhile (· != '\n')
        if name.isEmpty then fail "missing filename in r/R/w/W commands"
        return (letters, number, some name)
      else if "\n;\x7d# \t\r".toList.contains char then return (letters, number, none)
      else
        skip 1
        fail "unknown option to `s'"

/-- Reads a replacement from its mark on. -/
def readSubstitution (dialect : Regex.Dialect) : Read Action := do
  let unterminated := "unterminated `s' command"
  match ← peek? with
  | none => fail unterminated
  | some mark =>
    skip 1
    let text ← delimited mark true unterminated
    let replacement ← delimited mark false unterminated
    let (letters, number, file) ← readFlags ((← get).text.length + 1) [] none
    let folded := letters.contains 'i' || letters.contains 'I'
    let regex ← compile { dialect with folded } text
    let found := parts [] replacement
    let groups := groupCount regex
    if let some number := found.findSome? (missing groups) then
      if regex.isSome then fail s!"invalid reference \\{number} on `s' command's RHS"
    return .substitute
      ⟨regex, found, letters.contains 'g', number.getD 1, letters.contains 'p', file⟩
where
  groupsIn : Regex → Nat
    | .group number inner => max number (groupsIn inner)
    | .sequence first second | .either first second => max (groupsIn first) (groupsIn second)
    | .repeated _ _ inner => groupsIn inner
    | _ => 0
  groupCount (regex : Option Regex) : Nat := (regex.map groupsIn).getD 0
  missing (groups : Nat) : Part → Option Nat
    | .group number => if groups < number then some number else none
    | _ => none

/-- Reads characters that are exchanged for others from the mark on. -/
def readExchange : Read Action := do
  let unterminated := "unterminated `y' command"
  match ← peek? with
  | none => fail unterminated
  | some mark =>
    skip 1
    let before := plain (← delimited mark false unterminated)
    let behind := plain (← delimited mark false unterminated)
    if before.length ≠ behind.length then
      fail "strings for `y' command are different lengths"
    return .exchangeChars (List.zip before behind)
where
  plain : Raw → Raw
    | '\\' :: 'n' :: rest => '\n' :: plain rest
    | '\\' :: '\\' :: rest => '\\' :: plain rest
    | '\\' :: 't' :: rest => '\t' :: plain rest
    | char :: rest => char :: plain rest
    | [] => []

/-- Reads a name up to the end of the line. -/
def readFileName : Read Raw := do
  let _ ← takeWhile Text.isLineBlank
  let name ← takeWhile (· != '\n')
  if name.isEmpty then fail "missing filename in r/R/w/W commands"
  return name

/-- Reads a label. -/
def readLabel : Read Raw := do
  let _ ← takeWhile Text.isLineBlank
  takeWhile fun char => !isSpace char && char != ';' && char != '\x7d'

/-- Reads what may stand behind a command. -/
def readEnd : Read Unit := do
  let _ ← takeWhile Text.isLineBlank
  match ← peek? with
  | none => return
  | some char =>
    if char = ';' || char = '\n' then skip 1
    else if char = '\x7d' || char = '#' then return
    else
      skip 1
      fail "extra characters after command"

/-- Reads what a command does from its letter on. -/
def readAction (dialect : Regex.Dialect) (letter : Char) : Read Action := do
  match letter with
  | 's' => do
    let action ← readSubstitution dialect
    readEnd
    return action
  | 'y' => do
    let action ← readExchange
    readEnd
    return action
  | 'a' => return .append (← addedText)
  | 'i' => return .insert (← addedText)
  | 'c' => return .change (← addedText)
  | 'b' => do
    let label ← readLabel
    readEnd
    return .jump label
  | 't' | 'T' => do
    let label ← readLabel
    readEnd
    return .jumpIf (letter == 't') label
  | ':' => do
    let _ ← takeWhile Text.isLineBlank
    let name ← takeWhile fun char => !isSpace char && char != ';'
    if name.isEmpty then fail "\":\" lacks a label"
    return .label name
  | 'r' => return .readFile (← readFileName)
  | 'w' => return .writeFile (← readFileName)
  | 'q' | 'Q' => do
    let _ ← takeWhile Text.isLineBlank
    let status ← readNumber
    readEnd
    return .quit (letter == 'Q') status
  | _ =>
    if "=dDgGhHlnNpPxzF".toList.contains letter then
      readEnd
      return .plain letter
    else fail s!"unknown command: `{letter}'"

/-- Reads commands up to the end. `fuel` bounds their number. -/
def readAll (fuel : Nat) (dialect : Regex.Dialect) : Read Unit := do
  match fuel with
  | 0 => return
  | fuel + 1 =>
    let _ ← takeWhile fun char => isSpace char || char == ';'
    match ← peek? with
    | none =>
      if !(← get).groups.isEmpty then throw (0, "unmatched `\x7b'")
    | some '#' =>
      let _ ← takeWhile (· != '\n')
      readAll fuel dialect
    | some _ =>
      let first ← readAddress? dialect false
      let _ ← takeWhile Text.isLineBlank
      let second ←
        if first.isSome && (← peek?) = some ',' then do
          skip 1
          let _ ← takeWhile Text.isLineBlank
          match ← readAddress? dialect true with
          | some address => pure (some address)
          | none =>
            skip 1
            fail "unexpected `,'"
        else pure none
      match first, second with
      | some (.line 0), some (.matching _) => pure ()
      | some (.line 0), _ =>
        skip 1
        fail "invalid usage of line address 0"
      | _, _ => pure ()
      let _ ← takeWhile Text.isLineBlank
      let negated := (← peek?) == some '!'
      if negated then
        skip 1
        let _ ← takeWhile Text.isLineBlank
        if (← peek?) = some '!' then
          skip 1
          fail "multiple `!'s"
      let add (action : Action) : Read Unit :=
        modify fun reader =>
          { reader with commands := reader.commands.push ⟨first, second, negated, action⟩ }
      match ← peek? with
      | none => fail "missing command"
      | some '\n' | some ';' => fail "missing command"
      | some letter =>
        skip 1
        if letter = '\x7b' then
          modify fun reader => { reader with groups := reader.commands.size :: reader.groups }
          add (.openGroup 0)
        else if letter = '\x7d' then
          match (← get).groups with
          | [] => fail "unexpected `\x7d'"
          | opened :: outer =>
            if first.isSome then fail "\x7d doesn't want any addresses"
            let stop := (← get).commands.size
            modify fun reader =>
              { reader with
                groups := outer
                commands := reader.commands.modify opened fun command =>
                  { command with action := .openGroup stop } }
            add .closeGroup
            readEnd
        else add (← readAction dialect letter)
        readAll fuel dialect

/-- The commands of a text, or a complaint with the number of characters that were read. -/
def read (dialect : Regex.Dialect) (text : Raw) : Except (Nat × String) (Array Command) := do
  let (_, reader) ← readAll (text.length + 2) dialect ⟨text, 0, #[], []⟩
  return reader.commands

end PomLens.Script.LineEdit
