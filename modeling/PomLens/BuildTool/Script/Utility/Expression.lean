/-
This file defines the utility that calculates: each of its words is a value or an operator.

Operators bind more or less tightly and are grouped from the left. A value is a text; a
calculation needs texts that are integers. What the utility finds is written down, and its
status says whether that is something other than nothing and zero.
-/

import PomLens.BuildTool.Script.Regex
import PomLens.BuildTool.Script.Utility.Lines

namespace PomLens.Script.Utility.Expression

/-- Reading takes words away, knows the last of all, and can fail with a complaint. -/
abbrev Read := ReaderT Raw (StateT (List Raw) (Except String))

/-! ### Values -/

/-- The integer that a text means. -/
def integer? (text : Raw) : Option Int :=
  match text with
  | '-' :: digits => (Raw.nat? digits).map fun number => -(number : Int)
  | digits => (Raw.nat? digits).map Int.ofNat

/-- The text is empty or means zero. -/
def isNothing (text : Raw) : Bool :=
  let digits := if text.head? == some '-' then text.tail else text
  text.isEmpty || (!digits.isEmpty && digits.all (· == '0'))

/-- The places of a text that an expression matches from its start on: the text of its first
group, or the number of characters if it has none. -/
def matched (text pattern : Raw) : Except String Raw := do
  let regex ← Regex.parse ⟨false, false, false⟩ pattern
  let chars := text.toArray
  let grouped := Raw.isWithin ['\\', '('] pattern
  match regex.matchAt? chars 0 with
  | some way => return if grouped then way.part chars 0 1 else Raw.ofNat way.place
  | none => return if grouped then [] else ['0']

/-- Some characters of a text, counted from one. -/
def piece (text place length : Raw) : Raw :=
  match integer? place, integer? length with
  | some place, some length =>
    if place < 1 || length < 1 then [] else (text.drop (place.toNat - 1)).take length.toNat
  | _, _ => []

/-- The first place of a text with one of some characters, counted from one. -/
def placeOf (text chars : Raw) : Raw :=
  match text.findIdx? chars.contains with
  | some place => Raw.ofNat (place + 1)
  | none => ['0']

/-- What comes of two integers. -/
def calculated (operator : String) (left right : Raw) : Except String Raw := do
  match integer? left, integer? right with
  | some left, some right =>
    match operator with
    | "+" => return Raw.ofInt (left + right)
    | "-" => return Raw.ofInt (left - right)
    | "*" => return Raw.ofInt (left * right)
    | _ =>
      if right = 0 then throw "division by zero"
      else if operator = "/" then return Raw.ofInt (left.tdiv right)
      else return Raw.ofInt (left.tmod right)
  | _, _ => throw "non-integer argument"

/-- Two texts stand in a relation: as integers if both are, else in the order of texts. -/
def compared (operator : String) (left right : Raw) : Raw :=
  let order : Ordering :=
    match integer? left, integer? right with
    | some left, some right => compare left right
    | _, _ => if left = right then .eq else if Raw.le left right then .lt else .gt
  let holds : Bool :=
    match operator with
    | "<" => order == .lt
    | "<=" => order != .gt
    | "=" | "==" => order == .eq
    | "!=" => order != .eq
    | ">=" => order != .lt
    | _ => order == .gt
  if holds then ['1'] else ['0']

/-- What an operator makes of two values. -/
def combined (operator : String) (left right : Raw) : Except String Raw :=
  match operator with
  | "|" =>
    return if !isNothing left then left else if isNothing right then ['0'] else right
  | "&" => return if isNothing left || isNothing right then ['0'] else left
  | ":" => matched left right
  | "+" | "-" | "*" | "/" | "%" => calculated operator left right
  | _ => return compared operator left right

/-! ### Reading -/

/-- The operators, those that bind least tightly first. -/
def levels : List (List String) :=
  [["|"], ["&"], ["<", "<=", "=", "==", "!=", ">=", ">"], ["+", "-"], ["*", "/", "%"], [":"]]

/-- The next word, behind a word that is named if there is none. -/
def nextWord (behind : Raw) : Read Raw := do
  match ← get with
  | [] => throw s!"syntax error: missing argument after '{String.ofList behind}'"
  | word :: rest =>
    set rest
    return word

/-- The operands of a question about a text. -/
def operandCount : String → Nat
  | "length" => 1
  | "match" | "index" => 2
  | "substr" => 3
  | _ => 0

/-- The answer to a question about a text. -/
def answer (question : String) (operands : List Raw) : Except String Raw :=
  match question, operands with
  | "length", [text] => return Raw.ofNat text.length
  | "match", [text, pattern] => matched text pattern
  | "index", [text, chars] => return placeOf text chars
  | "substr", [text, place, length] => return piece text place length
  | _, _ => return []

mutual

/-- Reads a value that no operator stands in. The word in front is given. -/
def readValue (fuel : Nat) (wanted : Bool) (before : Raw) : Read Raw := do
  match fuel with
  | 0 => return []
  | fuel + 1 =>
    let word ← nextWord before
    let count := operandCount (String.ofList word)
    if word = ['('] then
      let value ← readLevel fuel wanted levels word
      match ← get with
      | [')'] :: rest =>
        set rest
        return value
      | [] => throw s!"syntax error: expecting ')' after '{String.ofList (← read)}'"
      | other :: _ => throw s!"syntax error: expecting ')' instead of '{String.ofList other}'"
    else if word = [')'] then throw "syntax error: unexpected ')'"
    else if word = ['+'] then nextWord word
    else if 0 < count then
      let operands ← readValues fuel wanted count word
      if wanted then liftM (answer (String.ofList word) operands) else return []
    else return word

/-- Reads some values. -/
def readValues (fuel : Nat) (wanted : Bool) (count : Nat) (before : Raw) : Read (List Raw) := do
  match fuel, count with
  | 0, _ | _, 0 => return []
  | fuel + 1, count + 1 =>
    let value ← readValue fuel wanted before
    return value :: (← readValues fuel wanted count value)

/-- Reads values with operators of some levels between them. Where a value is not wanted,
nothing is calculated. -/
def readLevel (fuel : Nat) (wanted : Bool) (operators : List (List String)) (before : Raw) :
    Read Raw := do
  match fuel, operators with
  | 0, _ => return []
  | fuel + 1, [] => readValue fuel wanted before
  | fuel + 1, level :: tighter =>
    let first ← readLevel fuel wanted tighter before
    readFurther fuel wanted level tighter first

/-- Reads the further values of a level behind the first one. -/
def readFurther (fuel : Nat) (wanted : Bool) (level : List String)
    (tighter : List (List String)) (left : Raw) : Read Raw := do
  match fuel, ← get with
  | 0, _ | _, [] => return left
  | fuel + 1, word :: rest =>
    let operator := String.ofList word
    if !level.contains operator then return left
    else
      set rest
      let needed := wanted && !(operator == "|" && !isNothing left) &&
        !(operator == "&" && isNothing left)
      let right ← readLevel fuel needed tighter word
      let value ← if wanted then liftM (combined operator left right) else pure left
      readFurther fuel wanted level tighter value

end

/-- The value of an expression. -/
def evaluate (words : List Raw) : Except String Raw := do
  let reading := readLevel (16 * (words.length + 1)) true levels []
  let (value, rest) ← (reading.run (words.getLast?.getD [])).run words
  match rest with
  | [] => return value
  | word :: _ => throw s!"syntax error: unexpected argument '{String.ofList word}'"

/-- Calculates. -/
def expr : Utility := fun words => do
  let words := if words.head? == some ['-', '-'] then words.tail else words
  if words.isEmpty then
    complain "expr" "missing operand\nTry 'expr --help' for more information."
    return 2
  else
    match evaluate words with
    | .error message =>
      complain "expr" message
      return 2
    | .ok value =>
      Act.print (value ++ ['\n'])
      return if isNothing value then 1 else 0

end PomLens.Script.Utility.Expression
