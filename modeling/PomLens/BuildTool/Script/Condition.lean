/-
This file evaluates the conditions that scripts test.

A condition is a list of words: comparisons of texts and numbers, questions about files, and
their combinations. Whether a word is an operator or something to be compared depends on the
words around it.
-/

import PomLens.BuildTool.Script.Raw

namespace PomLens.Script.Condition

/-- What a word may mean in a condition. -/
inductive Role
  | operand
  | unary (letter : Char)
  | binary (operator : String)
  | negation
  | both
  | either
  | opening
  | closing
  /-- There is no word. -/
  | missing
  deriving DecidableEq, Repr

/-- The meaning of a word as an operator. -/
def operator? (word : Raw) : Option Role :=
  match word with
  | ['!'] => some .negation
  | ['('] => some .opening
  | [')'] => some .closing
  | ['-', 'a'] => some .both
  | ['-', 'o'] => some .either
  | ['-', letter] =>
    if "rwxefdcbpugkstznhOGLS".toList.contains letter then some (.unary letter) else none
  | _ =>
    let text := String.ofList word
    if ["=", "!=", "<", ">", "-eq", "-ne", "-gt", "-ge", "-lt", "-le", "-nt", "-ot", "-ef"].contains
        text then
      some (.binary text)
    else none

/-- The meaning of the first of some words. An operator for one operand that is followed by
none, or by an operator for two, is an operand itself. -/
def role (words : List Raw) : Role :=
  match words with
  | [] => .missing
  | word :: rest =>
    match operator? word, rest with
    | none, _ => .operand
    | some (.unary _), [] => .operand
    | some (.unary letter), [_] => .unary letter
    | some (.unary letter), next :: _ =>
      match operator? next with
      | some (.binary _) => .operand
      | _ => .unary letter
    | some .opening, [] => .operand
    | some role, _ => role

/-- What conditions know about files, by the letter of a question. -/
abbrev Inquiry := Char → Raw → Bool

/-- A step that reads a condition from the front of some words. It fails with a complaint. -/
abbrev Read := StateT (List Raw) (Except Raw)

/-- A complaint about an operator. -/
def complaint (word : Raw) (message : String) : Raw :=
  if word.isEmpty then message.toList else word ++ ": ".toList ++ message.toList

/-- The number that a word means. -/
def number (word : Raw) : Except Raw Int :=
  let trimmed := ((word.dropWhile isSpace).reverse.dropWhile isSpace).reverse
  let (negative, digits) :=
    match trimmed with
    | '-' :: rest => (true, rest)
    | '+' :: rest => (false, rest)
    | rest => (false, rest)
  match Raw.nat? digits with
  | none => throw ("Illegal number: ".toList ++ word)
  | some value => return if negative then -(value : Int) else value

/-- Compares two words. -/
def compare (inquiry : Inquiry) (operator : String) (left right : Raw) : Except Raw Bool := do
  let numbers (holds : Int → Int → Bool) : Except Raw Bool := do
    return holds (← number left) (← number right)
  match operator with
  | "=" => return left == right
  | "!=" => return left != right
  | "<" => return !(Raw.le right left)
  | ">" => return !(Raw.le left right)
  | "-eq" => numbers fun left right => left = right
  | "-ne" => numbers fun left right => left ≠ right
  | "-gt" => numbers fun left right => left > right
  | "-ge" => numbers fun left right => left ≥ right
  | "-lt" => numbers fun left right => left < right
  | "-le" => numbers fun left right => left ≤ right
  | "-ef" => return left == right && inquiry 'e' left
  | _ => return false

/-- Answers a question about one word. -/
def inquire (inquiry : Inquiry) (letter : Char) (word : Raw) : Except Raw Bool := do
  match letter with
  | 'z' => return word.isEmpty
  | 'n' => return !word.isEmpty
  | 't' =>
    let _ ← number word
    return false
  | letter => return inquiry letter word

mutual

/-- Reads alternatives. The words start with the last one of what was read. -/
def readEither (inquiry : Inquiry) (fuel : Nat) : Read Bool := do
  match fuel with
  | 0 => return false
  | fuel + 1 =>
    let first ← readBoth inquiry fuel
    if role (← get).tail = .either then
      modify fun words => words.drop 2
      let second ← readEither inquiry fuel
      return first || second
    else return first

/-- Reads conditions that must all hold. -/
def readBoth (inquiry : Inquiry) (fuel : Nat) : Read Bool := do
  match fuel with
  | 0 => return false
  | fuel + 1 =>
    let first ← readNegated inquiry fuel
    if role (← get).tail = .both then
      modify fun words => words.drop 2
      let second ← readBoth inquiry fuel
      return first && second
    else return first

/-- Reads a condition with any number of negations in front of it. -/
def readNegated (inquiry : Inquiry) (fuel : Nat) : Read Bool := do
  match fuel with
  | 0 => return false
  | fuel + 1 =>
    let words ← get
    if role words = .negation then
      if !words.tail.isEmpty then
        set words.tail
        return !(← readNegated inquiry fuel)
      else return true
    else readPrimary inquiry fuel

/-- Reads a condition that is no combination of others, or one in parentheses. -/
def readPrimary (inquiry : Inquiry) (fuel : Nat) : Read Bool := do
  match fuel with
  | 0 => return false
  | fuel + 1 =>
    let words ← get
    match role words, words with
    | .missing, _ | _, [] => return false
    | .opening, _ =>
      set words.tail
      if role words.tail = .closing then return false
      else
        let value ← readEither inquiry fuel
        modify List.tail
        if role (← get) != .closing then throw "closing paren expected".toList
        return value
    | .unary letter, word :: rest =>
      set rest
      match rest with
      | [] => throw (complaint word "argument expected")
      | operand :: _ => liftM (inquire inquiry letter operand)
    | _, left :: rest =>
      match role rest, rest with
      | .binary operator, word :: right =>
        set right
        match right with
        | [] => throw (complaint word "argument expected")
        | operand :: _ => liftM (compare inquiry operator left operand)
      | _, _ => return !left.isEmpty

end

/-- The condition that words state holds. Fails with a complaint if they state none. -/
def holds (inquiry : Inquiry) (words : List Raw) : Except Raw Bool :=
  go (words.length + 1) words
where
  whole (words : List Raw) : Except Raw Bool := do
    let (value, rest) ← readEither inquiry (8 * (words.length + 1)) words
    match rest with
    | word :: _ :: _ => throw (complaint word "unexpected operator")
    | _ => return value
  /-- With three words, one that stands between two others and compares them goes first. Else,
  with few words, a negation or a pair of parentheses around the others does. -/
  go (fuel : Nat) (words : List Raw) : Except Raw Bool :=
    match fuel, words with
    | _, [] | 0, _ => return false
    | fuel + 1, first :: rest =>
      let comparison? :=
        match rest with
        | [middle, last] =>
          match operator? middle with
          | some (.binary operator) => some (compare inquiry operator first last)
          | _ => none
        | _ => none
      match comparison? with
      | some result => result
      | none =>
        if words.length = 3 || words.length = 4 then
          if first = ['('] && rest.getLast? = some [')'] then whole rest.dropLast
          else if first = ['!'] then do return !(← go fuel rest)
          else whole words
        else whole words

end PomLens.Script.Condition
