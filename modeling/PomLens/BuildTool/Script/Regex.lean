/-
This file defines regular expressions as utilities use them.

An expression is written in one of two dialects: in the basic one, most operators have a
backslash in front, in the extended one none has. Of all places where an expression matches,
the first counts, and there the longest match. What the groups of an expression matched can
be asked for and can be referred to inside the expression.
-/

import PomLens.BuildTool.Script.Pattern

namespace PomLens.Script

/-! ### Expressions -/

/-- A place between characters that an expression can ask for. -/
inductive Edge
  | textStart
  | textEnd
  | wordStart
  | wordEnd
  | wordEdge
  | noWordEdge
  deriving DecidableEq, Repr

inductive Regex
  /-- Nothing, which is everywhere. -/
  | empty
  | char (accepts : Char → Bool)
  | edge (edge : Edge)
  | group (number : Nat) (inner : Regex)
  /-- What a group matched before. -/
  | same (number : Nat)
  | sequence (first second : Regex)
  | either (first second : Regex)
  | repeated (least : Nat) (most : Option Nat) (inner : Regex)

namespace Regex

/-! ### Reading -/

/-- How an expression is written. -/
structure Dialect where
  extended : Bool
  /-- Letters of both cases are alike. -/
  folded : Bool
  /-- Some letters behind a backslash stand for characters that cannot be seen. -/
  escapes : Bool
  deriving DecidableEq, Repr

/-- The state of reading: what is left, and how many groups were opened. -/
structure Reader where
  text : Raw
  groups : Nat

abbrev Read := StateT Reader (Except String)

/-- A test for a character in a dialect. -/
def Dialect.test (dialect : Dialect) (accepts : Char → Bool) (char : Char) : Bool :=
  accepts char || (dialect.folded && (accepts char.toLower || accepts char.toUpper))

/-- A character of a word, as expressions see it. -/
def isWordChar (char : Char) : Bool :=
  isNameChar char

/-- Passes over the next characters. -/
def skip (count : Nat) : Read Unit :=
  modify fun reader => { reader with text := reader.text.drop count }

/-- Whether an operator comes next, which is written with a backslash in the basic dialect. -/
def atOperator (dialect : Dialect) (char : Char) : Read Bool := do
  match (← get).text, dialect.extended with
  | first :: _, true => return first == char
  | '\\' :: second :: _, false => return second == char
  | _, _ => return false

def takeOperator (dialect : Dialect) (char : Char) : Read Bool := do
  if ← atOperator dialect char then
    skip (if dialect.extended then 1 else 2)
    return true
  else return false

/-- A list of characters in brackets, from behind the opening one. -/
def readBrackets (dialect : Dialect) : Read Regex := do
  let text := (← get).text
  let (negated, body) :=
    match text with
    | '^' :: rest => (true, rest)
    | _ => (false, text)
  match bracketTests? (body.length + 1) true (body.map fun char => ⟨false, char⟩) with
  | none => throw "Unmatched [, [^, [:, [., or [="
  | some (tests, rest) =>
    modify fun reader => { reader with text := glyphText rest }
    let accepts := dialect.test fun char => tests.any (· char)
    return .char fun char => accepts char != negated

/-- The bounds of a repetition in braces and the length of their text, if well formed. -/
def bounds? (dialect : Dialect) (text : Raw) : Option (Nat × Option Nat × Nat) :=
  let low := text.takeWhile Char.isDigit
  let after := text.drop low.length
  let closing := if dialect.extended then ['\x7d'] else ['\\', '\x7d']
  match after with
  | ',' :: more =>
    let high := more.takeWhile Char.isDigit
    if closing.isPrefixOf (more.drop high.length) then
      some ((Raw.nat? low).getD 0, Raw.nat? high, low.length + 1 + high.length + closing.length)
    else none
  | _ =>
    match Raw.nat? low with
    | none => none
    | some number =>
      if closing.isPrefixOf after then
        some (number, some number, low.length + closing.length)
      else none

/-- Reads the repetitions behind an item. `fuel` bounds their number. -/
def readRepetitions (fuel : Nat) (dialect : Dialect) (item : Regex) : Read Regex := do
  match fuel with
  | 0 => return item
  | fuel + 1 =>
    match (← get).text with
    | '*' :: _ =>
      skip 1
      readRepetitions fuel dialect (.repeated 0 none item)
    | _ =>
      if ← takeOperator dialect '+' then readRepetitions fuel dialect (.repeated 1 none item)
      else if ← takeOperator dialect '?' then
        readRepetitions fuel dialect (.repeated 0 (some 1) item)
      else if ← atOperator dialect '\x7b' then
        match bounds? dialect ((← get).text.drop (if dialect.extended then 1 else 2)) with
        | none => if dialect.extended && !dialect.escapes then return item else throw "Unmatched \\\x7b"
        | some (least, most, length) =>
          if most.any (· < least) then throw "Invalid content of \\\x7b\\\x7d"
          skip ((if dialect.extended then 1 else 2) + length)
          readRepetitions fuel dialect (.repeated least most item)
      else return item

/-- What a backslash in front of a letter stands for in both dialects. -/
def escaped? (dialect : Dialect) (char : Char) : Option Regex :=
  match char with
  | 'w' => some (.char isWordChar)
  | 'W' => some (.char fun char => !isWordChar char)
  | 's' => some (.char isSpace)
  | 'S' => some (.char fun char => !isSpace char)
  | 'b' => some (.edge .wordEdge)
  | 'B' => some (.edge .noWordEdge)
  | '<' => some (.edge .wordStart)
  | '>' => some (.edge .wordEnd)
  | '`' => some (.edge .textStart)
  | '\'' => some (.edge .textEnd)
  | 'n' => if dialect.escapes then some (.char (· == '\n')) else none
  | 't' => if dialect.escapes then some (.char (· == '\t')) else none
  | _ => none

mutual

/-- Reads alternatives up to the end or a closing parenthesis. -/
def readEither (fuel : Nat) (dialect : Dialect) (inside : Bool) : Read Regex := do
  match fuel with
  | 0 => return .empty
  | fuel + 1 =>
    let first ← readSequence fuel dialect inside true
    if ← takeOperator dialect '|' then return .either first (← readEither fuel dialect inside)
    else return first

/-- Reads items one after another. -/
def readSequence (fuel : Nat) (dialect : Dialect) (inside atStart : Bool) : Read Regex := do
  match fuel with
  | 0 => return .empty
  | fuel + 1 =>
    if (← get).text.isEmpty then
      if inside then throw "Unmatched ( or \\(" else return .empty
    else if ← atOperator dialect '|' then return .empty
    else if (← atOperator dialect ')') then
      if inside then return .empty
      else if dialect.extended then
        let first ← readItem fuel dialect atStart
        return .sequence first (← readSequence fuel dialect inside false)
      else throw "Unmatched ) or \\)"
    else
      let first ← readItem fuel dialect atStart
      return .sequence first (← readSequence fuel dialect inside false)

/-- Reads one item with its repetitions. -/
def readItem (fuel : Nat) (dialect : Dialect) (atStart : Bool) : Read Regex := do
  match fuel with
  | 0 => return .empty
  | fuel + 1 =>
    let text := (← get).text
    let literal (char : Char) : Regex := .char (dialect.test (· == char))
    let repeatable (length : Nat) (item : Regex) : Read Regex := do
      skip length
      readRepetitions (text.length + 1) dialect item
    if ← takeOperator dialect '(' then
      let number := (← get).groups + 1
      modify fun reader => { reader with groups := number }
      let inner ← readEither fuel dialect true
      if !(← takeOperator dialect ')') then throw "Unmatched ( or \\("
      repeatable 0 (.group number inner)
    else
      match text with
      | [] => return .empty
      | ['\\'] => throw "Trailing backslash"
      | '\\' :: letter :: _ =>
        match escaped? dialect letter with
        | some item => repeatable 2 item
        | none =>
          if letter.isDigit && letter != '0' then
            let number := letter.toNat - '0'.toNat
            if (← get).groups < number then throw "Invalid back reference"
            repeatable 2 (.same number)
          else repeatable 2 (literal letter)
      | '^' :: _ =>
        if dialect.extended || atStart then
          skip 1
          match (← get).text, dialect.extended with
          | '*' :: _, false =>
            let star ← repeatable 1 (literal '*')
            return .sequence (.edge .textStart) star
          | _, _ => return .edge .textStart
        else repeatable 1 (literal '^')
      | '$' :: rest =>
        let ends := rest.isEmpty || "\\)".toList.isPrefixOf rest || "\\|".toList.isPrefixOf rest
        if dialect.extended || ends then
          skip 1
          return .edge .textEnd
        else repeatable 1 (literal '$')
      | '.' :: _ => repeatable 1 (.char fun _ => true)
      | '[' :: _ =>
        skip 1
        let brackets ← readBrackets dialect
        readRepetitions (text.length + 1) dialect brackets
      | first :: _ =>
        let repeats := "*+?".toList.contains first
        if dialect.extended && atStart && repeats then
          skip 1
          return .empty
        else repeatable 1 (literal first)

end

/-- Reads an expression. -/
def parse (dialect : Dialect) (text : Raw) : Except String Regex := do
  let (regex, reader) ← readEither (4 * (text.length + 2)) dialect false ⟨text, 0⟩
  if !reader.text.isEmpty then throw "Unmatched ) or \\)"
  return regex

/-- The expression that stands for exactly this text. -/
def ofText (dialect : Dialect) (text : Raw) : Regex :=
  text.foldr (fun char rest => .sequence (.char (dialect.test (· == char))) rest) .empty

/-! ### Matching -/

/-- How far a match has come, and what the groups matched: their starts and ends. -/
structure Progress where
  place : Nat
  groups : List (Nat × Nat × Nat)
  deriving Repr

/-- Ways to go on that come to different places, the first of each. -/
def distinct (ways : List Progress) : List Progress :=
  go [] ways
where
  go (seen : List Nat) : List Progress → List Progress
    | [] => []
    | way :: rest =>
      if seen.contains way.place then go seen rest else way :: go (way.place :: seen) rest

/-- The edge is at a place of a text. -/
def isAt (wanted : Edge) (text : Array Char) (place : Nat) : Bool :=
  let before := 0 < place && (text[place - 1]?).any isWordChar
  let behind := (text[place]?).any isWordChar
  match wanted with
  | .textStart => place = 0
  | .textEnd => place = text.size
  | .wordStart => !before && behind
  | .wordEnd => before && !behind
  | .wordEdge => before != behind
  | .noWordEdge => before == behind

/-- The ways to repeat a step from some ways, each round going on only from places that were
not reached before. `fuel` bounds the number of rounds. -/
def rounds (step : Progress → List Progress) (fuel : Nat) (seen : List Nat)
    (ways : List Progress) : List Progress :=
  match fuel with
  | 0 => []
  | fuel + 1 =>
    let fresh := (distinct (ways.flatMap step)).filter fun way => !seen.contains way.place
    if fresh.isEmpty then []
    else rounds step fuel (fresh.map Progress.place ++ seen) fresh ++ fresh

/-- The ways to take a step a number of times. -/
def times (step : Progress → List Progress) : Nat → List Progress → List Progress
  | 0, ways => ways
  | count + 1, ways => times step count (distinct (ways.flatMap step))

/-- The ways in which an expression can match from a place on, with different ends. -/
def ways (text : Array Char) : Regex → Progress → List Progress
  | .empty, way => [way]
  | .char accepts, way =>
    if (text[way.place]?).any accepts then [{ way with place := way.place + 1 }] else []
  | .edge wanted, way => if isAt wanted text way.place then [way] else []
  | .group number inner, way =>
    (ways text inner way).map fun result =>
      { result with groups := (number, way.place, result.place) :: result.groups }
  | .same number, way =>
    match way.groups.lookup number with
    | none => []
    | some (start, stop) =>
      let part := text.toList.drop start |>.take (stop - start)
      if part.isPrefixOf (text.toList.drop way.place) then
        [{ way with place := way.place + (stop - start) }]
      else []
  | .sequence first second, way =>
    distinct ((ways text first way).flatMap (ways text second))
  | .either first second, way => distinct (ways text first way ++ ways text second way)
  | .repeated least most inner, way =>
    let step := ways text inner
    let start := times step least [way]
    let limit := (most.map (· - least)).getD (text.size + 1)
    distinct (rounds step limit (start.map Progress.place) start ++ start)

/-- The longest match that starts at a place. -/
def matchAt? (regex : Regex) (text : Array Char) (start : Nat) : Option Progress :=
  (ways text regex ⟨start, []⟩).foldl
    (fun best way =>
      match best with
      | none => some way
      | some longest => if longest.place < way.place then some way else best)
    none

/-- The first place from a start on at which an expression matches, and the longest match
there. -/
def search? (regex : Regex) (text : Array Char) (start : Nat) : Option (Nat × Progress) :=
  ((List.range (text.size + 1 - start)).map (start + ·)).findSome? fun place =>
    (matchAt? regex text place).map fun way => (place, way)

/-- What a group matched, or the whole for zero. -/
def Progress.part (way : Progress) (text : Array Char) (start number : Nat) : Raw :=
  let (first, last) := if number = 0 then (start, way.place) else (way.groups.lookup number).getD (0, 0)
  (text.toList.take last).drop first

end Regex

end PomLens.Script
