/-
This file reads globs.

A glob is a text with wildcards. `?` stands for any byte and `*` for any bytes. Two stars
that are a whole step of a path stand for any number of steps, brackets list bytes, and
braces list alternatives. A backslash takes the next character literally. Slashes are not
special otherwise: a star also stands for them.
-/

import PomLens.Text.Blank

namespace PomLens.Glob

/-! ### Patterns -/

inductive Token
  | literal (char : Char)
  /-- Any one byte. -/
  | any
  /-- Any bytes. -/
  | many
  /-- Any steps in front. -/
  | leadingSteps
  /-- Any steps behind. -/
  | trailingSteps
  /-- Any steps in between. -/
  | innerSteps
  /-- A byte in one of the ranges, or in none of them. -/
  | set (negated : Bool) (ranges : List (Char × Char))
  | alternatives (branches : List (List Token))
  deriving Repr

/-- Why a text is no glob. -/
inductive Fault
  | unclosedSet
  | invalidRange (first last : Char)
  | unclosedGroup
  | unopenedGroup
  | danglingEscape
  deriving DecidableEq, Repr

def Fault.message : Fault → String
  | .unclosedSet => "unclosed character class; missing ']'"
  | .invalidRange first last => s!"invalid range; '{first}' > '{last}'"
  | .unclosedGroup =>
    "unclosed alternate group; missing '\x7d' (maybe escape '\x7b' with '[\x7b]'?)"
  | .unopenedGroup =>
    "unopened alternate group; missing '\x7b' (maybe escape '\x7d' with '[\x7d]'?)"
  | .danglingEscape => "dangling '\\'"

/-! ### Sets -/

/-- The ranges of a set read so far, the latest first, and whether a dash has been read that
may join the latest to the next character. -/
structure SetReader where
  ranges : List (Char × Char)
  joining : Bool

/-- Ends the latest range at a character. -/
def SetReader.join (reader : SetReader) (char : Char) : Except Fault SetReader :=
  match reader.ranges with
  | [] => return ⟨[(char, char)], false⟩
  | (first, _) :: rest =>
    if char < first then throw (.invalidRange first char)
    else return ⟨(first, char) :: rest, false⟩

/-- Takes up one character of a set, the closing bracket apart. -/
def SetReader.read (reader : SetReader) (char : Char) : Except Fault SetReader :=
  if reader.joining then reader.join char
  else if char = '-' && !reader.ranges.isEmpty then return { reader with joining := true }
  else return { reader with ranges := (char, char) :: reader.ranges }

/-- Reads the ranges of a set up to its closing bracket, and gives what follows. A bracket
in the first place is a member, and so is a dash in the last. -/
def readRanges (reader : SetReader) :
    List Char → Except Fault (List (Char × Char) × List Char)
  | [] => throw .unclosedSet
  | char :: rest =>
    if char = ']' && !reader.ranges.isEmpty then
      let ranges := if reader.joining then ('-', '-') :: reader.ranges else reader.ranges
      return (ranges.reverse, rest)
    else do
      let reader ← reader.read char
      readRanges reader rest

/-- Reads a set from behind its opening bracket. -/
def readSet (text : List Char) : Except Fault (Token × List Char) := do
  let (negated, body) :=
    match text with
    | '!' :: rest | '^' :: rest => (true, rest)
    | _ => (false, text)
  let (ranges, rest) ← readRanges ⟨[], false⟩ body
  return (.set negated ranges, rest)

/-! ### Reading a glob -/

/-- A group of alternatives that is not closed yet. -/
structure OpenGroup where
  /-- The branches before the one at hand, the latest first. -/
  branches : List (List Token)
  /-- The tokens in front of the group, the latest first. -/
  outer : List Token

/-- The state between two tokens. -/
structure Reader where
  /-- The character before. -/
  before : Option Char
  /-- The tokens of the branch at hand, the latest first. -/
  tokens : List Token
  /-- The open groups, the innermost first. -/
  groups : List OpenGroup

namespace Reader

def start : Reader :=
  ⟨none, [], []⟩

def push (reader : Reader) (last : Char) (token : Token) : Reader :=
  { reader with before := some last, tokens := token :: reader.tokens }

/-- Two stars that are no step of their own. -/
def pushStars (reader : Reader) : Reader :=
  { reader with before := some '*', tokens := .many :: .many :: reader.tokens }

/-- The two stars may be a step: a slash stands before them or, in a group, a brace or a
comma does. -/
def mayStep (reader : Reader) : Bool :=
  reader.before == some '/' ||
    (!reader.groups.isEmpty && (reader.before == some ',' || reader.before == some '\x7b'))

/-- Two stars between a slash and what follows. They take the place of the slash before
them, unless any steps stand there already. -/
def pushSteps (reader : Reader) (last : Char) (token : Token) : Reader :=
  let tokens :=
    match reader.tokens with
    | .leadingSteps :: rest => .leadingSteps :: rest
    | .trailingSteps :: rest => .trailingSteps :: rest
    | _ :: rest => token :: rest
    | [] => [token]
  { reader with before := some last, tokens }

/-- Reads two stars, given what follows them, and gives what is left. A slash behind them
belongs to them if they are a step. -/
def readStars (reader : Reader) (rest : List Char) : Reader × List Char :=
  if reader.tokens.isEmpty then
    match rest with
    | [] => (reader.push '*' .leadingSteps, [])
    | '/' :: rest => (reader.push '/' .leadingSteps, rest)
    | _ => (reader.pushStars, rest)
  else if !reader.mayStep then (reader.pushStars, rest)
  else
    match rest with
    | [] => (reader.pushSteps '*' .trailingSteps, [])
    | '/' :: rest => (reader.pushSteps '/' .innerSteps, rest)
    | char :: _ =>
      if (char = ',' || char = '\x7d') && !reader.groups.isEmpty then
        (reader.pushSteps '*' .trailingSteps, rest)
      else (reader.pushStars, rest)

/-- Opens a group. -/
def openGroup (reader : Reader) : Reader :=
  ⟨some '\x7b', [], ⟨[], reader.tokens⟩ :: reader.groups⟩

/-- Starts the next branch of the innermost group. A comma outside all groups is only a
comma. -/
def nextBranch (reader : Reader) : Reader :=
  match reader.groups with
  | [] => reader.push ',' (.literal ',')
  | group :: outer =>
    ⟨some ',', [], { group with branches := reader.tokens.reverse :: group.branches } :: outer⟩

/-- Closes the innermost group. -/
def closeGroup (reader : Reader) : Except Fault Reader :=
  match reader.groups with
  | [] => throw .unopenedGroup
  | group :: outer =>
    let branches := (reader.tokens.reverse :: group.branches).reverse
    return ⟨some '\x7d', .alternatives branches :: group.outer, outer⟩

/-- Reads the rest of a glob. `fuel` bounds the number of tokens; the length of the text is
enough. -/
def readRest (fuel : Nat) (reader : Reader) (text : List Char) : Except Fault (List Token) := do
  match fuel, text with
  | _, [] => if reader.groups.isEmpty then return reader.tokens.reverse else throw .unclosedGroup
  | 0, _ :: _ => return reader.tokens.reverse
  | fuel + 1, char :: rest =>
    match char, rest with
    | '?', _ => (reader.push '?' .any).readRest fuel rest
    | '*', '*' :: rest =>
      let (reader, rest) := reader.readStars rest
      reader.readRest fuel rest
    | '*', _ => (reader.push '*' .many).readRest fuel rest
    | '[', _ =>
      let (token, rest) ← readSet rest
      (reader.push ']' token).readRest fuel rest
    | '\x7b', _ => reader.openGroup.readRest fuel rest
    | '\x7d', _ => (← reader.closeGroup).readRest fuel rest
    | ',', _ => reader.nextBranch.readRest fuel rest
    | '\\', [] => throw .danglingEscape
    | '\\', next :: rest => (reader.push next (.literal next)).readRest fuel rest
    | _, _ => (reader.push char (.literal char)).readRest fuel rest

end Reader

/-- The tokens of a glob. -/
def parse (text : String) : Except Fault (List Token) :=
  Reader.start.readRest text.length text.toList

end PomLens.Glob
