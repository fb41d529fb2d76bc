/-
This file evaluates arithmetic expressions of scripts.

Numbers are integers of 64 bits with a sign, and what leaves their range wraps around. An
expression may set variables; what is not needed for its value, such as the second operand
of a conjunction whose first one is zero, sets none.
-/

import PomLens.BuildTool.Script.Raw

namespace PomLens.Script.Arithmetic

/-! ### Expressions -/

/-- An operator with two operands that are both needed. -/
inductive Operator
  | times | divide | modulo | plus | minus | shiftLeft | shiftRight
  | less | lessEqual | greater | greaterEqual | equal | unequal
  | bitAnd | bitXor | bitOr
  deriving DecidableEq, Repr

inductive Expression
  | number (value : Int)
  | variable (name : String)
  | negative (operand : Expression)
  /-- One for zero and zero for all else. -/
  | isZero (operand : Expression)
  | complement (operand : Expression)
  | binary (operator : Operator) (left right : Expression)
  | both (left right : Expression)
  | either (left right : Expression)
  | choice (test yes no : Expression)
  /-- Sets a variable, to its old value combined with the new one if there is an operator. -/
  | assign (name : String) (operator : Option Operator) (value : Expression)
  deriving Repr

/-- Why an expression has no value. -/
inductive Fault
  /-- It is not well formed; the text says what was expected. -/
  | expecting (what : String)
  | divisionByZero
  /-- The value of a variable is no number. -/
  | noNumber (value : Raw)
  deriving DecidableEq, Repr

/-! ### Reading -/

inductive Token
  | number (value : Int)
  | name (name : String)
  | sign (sign : String)
  deriving DecidableEq, Repr

/-- The signs of an expression, longer ones in front of those that they start with. -/
def signs : List String :=
  ["<<=", ">>=", "*=", "/=", "%=", "+=", "-=", "&=", "^=", "|=", "<<", ">>", "<=", ">=", "==",
    "!=", "&&", "||", "*", "/", "%", "+", "-", "<", ">", "=", "!", "~", "&", "^", "|", "?", ":",
    "(", ")"]

/-- The value of digits in a base up to sixteen, and what follows them. -/
def readDigits (base : Nat) (value : Nat) : Raw → Nat × Raw
  | [] => (value, [])
  | char :: rest =>
    let digit :=
      if char.isDigit then char.toNat - '0'.toNat
      else if 'a' ≤ char.toLower && char.toLower ≤ 'f' then char.toLower.toNat - 'a'.toNat + 10
      else 16
    if digit < base then readDigits base (base * value + digit) rest else (value, char :: rest)

/-- The largest number. -/
def largest : Nat := 9223372036854775807

/-- The number at the start of a text, in the base that its first digits name. -/
def readNumber : Raw → Nat × Raw
  | '0' :: 'x' :: rest | '0' :: 'X' :: rest =>
    if (readDigits 16 0 rest).2.length < rest.length then readDigits 16 0 rest
    else (0, 'x' :: rest)
  | '0' :: rest => readDigits 8 0 rest
  | text => readDigits 10 0 text

/-- The tokens of an expression. A character that means nothing is a sign of its own. `fuel`
bounds their number. -/
def tokens (fuel : Nat) (text : Raw) : List Token :=
  match fuel, text.dropWhile isSpace with
  | _, [] | 0, _ => []
  | fuel + 1, char :: rest =>
    if char.isDigit then
      let (value, after) := readNumber (char :: rest)
      .number (min value largest : Nat) :: tokens fuel after
    else if isNameChar char then
      let name := (char :: rest).takeWhile isNameChar
      .name (String.ofList name) :: tokens fuel ((char :: rest).drop name.length)
    else
      let known := signs.find? fun sign => sign.toList.isPrefixOf (char :: rest)
      let sign := known.getD (String.singleton char)
      .sign sign :: tokens fuel ((char :: rest).drop sign.length)

/-- The operator of a sign, and how tightly it binds: the smaller the tighter. -/
def operator? (sign : String) : Option (Operator × Nat) :=
  match sign with
  | "*" => some (.times, 0)
  | "/" => some (.divide, 0)
  | "%" => some (.modulo, 0)
  | "+" => some (.plus, 1)
  | "-" => some (.minus, 1)
  | "<<" => some (.shiftLeft, 2)
  | ">>" => some (.shiftRight, 2)
  | "<" => some (.less, 3)
  | "<=" => some (.lessEqual, 3)
  | ">" => some (.greater, 3)
  | ">=" => some (.greaterEqual, 3)
  | "==" => some (.equal, 4)
  | "!=" => some (.unequal, 4)
  | "&" => some (.bitAnd, 5)
  | "^" => some (.bitXor, 6)
  | "|" => some (.bitOr, 7)
  | _ => none

/-- The operator in a sign that sets a variable. There is none in a plain equals sign. -/
def settingOperator? (sign : String) : Option (Option Operator) :=
  if sign = "=" then some none
  else if ["<=", ">=", "==", "!="].contains sign then none
  else
    match sign.toList.reverse with
    | '=' :: rest => (operator? (String.ofList rest.reverse)).map fun (operator, _) => some operator
    | _ => none

/-- A step that reads from the front of some tokens. -/
abbrev Read := StateT (List Token) (Except Fault)

/-- Reads a sign if it comes next, and says whether it did. -/
def takeSign (sign : String) : Read Bool := do
  match ← get with
  | .sign first :: rest =>
    if first = sign then
      set rest
      return true
    else return false
  | _ => return false

/-- Reads a sign that must come next. -/
def expectSign (sign : String) : Read Unit := do
  if !(← takeSign sign) then throw (.expecting s!"'{sign}'")

mutual

/-- Reads a value that is set, or a choice. -/
def readAssignment (fuel : Nat) : Read Expression := do
  match fuel with
  | 0 => throw (.expecting "primary")
  | fuel + 1 =>
    match ← get with
    | .name name :: .sign sign :: rest =>
      match settingOperator? sign with
      | some operator =>
        set rest
        return .assign name operator (← readAssignment fuel)
      | none => readChoice fuel
    | _ => readChoice fuel

/-- Reads a choice, or what stands in front of its question mark. -/
def readChoice (fuel : Nat) : Read Expression := do
  match fuel with
  | 0 => throw (.expecting "primary")
  | fuel + 1 =>
    let test ← readEither fuel
    if ← takeSign "?" then
      let yes ← readAssignment fuel
      expectSign ":"
      return .choice test yes (← readChoice fuel)
    else return test

/-- Reads a disjunction. -/
def readEither (fuel : Nat) : Read Expression := do
  match fuel with
  | 0 => throw (.expecting "primary")
  | fuel + 1 =>
    let left ← readBoth fuel
    if ← takeSign "||" then return .either left (← readEither fuel) else return left

/-- Reads a conjunction. -/
def readBoth (fuel : Nat) : Read Expression := do
  match fuel with
  | 0 => throw (.expecting "primary")
  | fuel + 1 =>
    let left ← readBinary fuel 7
    if ← takeSign "&&" then return .both left (← readBoth fuel) else return left

/-- Reads operands joined by operators that bind at least as tightly as `level`. -/
def readBinary (fuel : Nat) (level : Nat) : Read Expression := do
  match fuel with
  | 0 => throw (.expecting "primary")
  | fuel + 1 =>
    let left ← if level = 0 then readPrimary fuel else readBinary fuel (level - 1)
    readFurther fuel level left

/-- Reads further operands of operators that bind just as `level` says. -/
def readFurther (fuel : Nat) (level : Nat) (left : Expression) : Read Expression := do
  match fuel with
  | 0 => throw (.expecting "primary")
  | fuel + 1 =>
    match ← get with
    | .sign sign :: rest =>
      match operator? sign with
      | some (operator, binding) =>
        if binding = level then
          set rest
          let right ← if level = 0 then readPrimary fuel else readBinary fuel (level - 1)
          readFurther fuel level (.binary operator left right)
        else return left
      | none => return left
    | _ => return left

/-- Reads an operand. -/
def readPrimary (fuel : Nat) : Read Expression := do
  match fuel with
  | 0 => throw (.expecting "primary")
  | fuel + 1 =>
    match ← get with
    | .number value :: rest =>
      set rest
      return .number value
    | .name name :: rest =>
      set rest
      return .variable name
    | .sign "+" :: rest =>
      set rest
      readPrimary fuel
    | .sign "-" :: rest =>
      set rest
      return .negative (← readPrimary fuel)
    | .sign "!" :: rest =>
      set rest
      return .isZero (← readPrimary fuel)
    | .sign "~" :: rest =>
      set rest
      return .complement (← readPrimary fuel)
    | .sign "(" :: rest =>
      set rest
      let inner ← readAssignment fuel
      expectSign ")"
      return inner
    | _ => throw (.expecting "primary")

end

/-- Reads a whole expression. -/
def parse (text : Raw) : Except Fault Expression := do
  let tokens := tokens (text.length + 1) text
  let (expression, rest) ← readAssignment (16 * (tokens.length + 1)) tokens
  if !rest.isEmpty then throw (.expecting "EOF")
  return expression

/-! ### Evaluating -/

/-- The number of 64 bits that a number wraps around to. -/
def wrap (value : Int) : Int :=
  value.bmod 18446744073709551616

/-- The 64 bits of a number. -/
def bits (value : Int) : Nat :=
  (value % 18446744073709551616).toNat

/-- One for what holds and zero for what does not. -/
def truth (holds : Bool) : Int :=
  if holds then 1 else 0

/-- The value of an operator for two numbers. -/
def Operator.apply (operator : Operator) (left right : Int) : Except Fault Int :=
  match operator with
  | .times => return wrap (left * right)
  | .divide => if right = 0 then throw .divisionByZero else return wrap (left.tdiv right)
  | .modulo => if right = 0 then throw .divisionByZero else return wrap (left.tmod right)
  | .plus => return wrap (left + right)
  | .minus => return wrap (left - right)
  | .shiftLeft => return wrap (left <<< (bits right % 64))
  | .shiftRight => return wrap (left >>> (bits right % 64))
  | .less => return truth (left < right)
  | .lessEqual => return truth (left ≤ right)
  | .greater => return truth (left > right)
  | .greaterEqual => return truth (left ≥ right)
  | .equal => return truth (left = right)
  | .unequal => return truth (left ≠ right)
  | .bitAnd => return wrap (bits left &&& bits right : Nat)
  | .bitXor => return wrap (bits left ^^^ bits right : Nat)
  | .bitOr => return wrap (bits left ||| bits right : Nat)

/-- The number that the value of a variable means. A missing or empty one is zero. -/
def valueOf (text : Raw) : Except Fault Int :=
  let trimmed := (text.dropWhile isSpace).reverse.dropWhile isSpace |>.reverse
  let (negative, digits) :=
    match trimmed with
    | '-' :: rest => (true, rest)
    | '+' :: rest => (false, rest)
    | rest => (false, rest)
  let (value, rest) := readNumber digits
  if text.isEmpty then return 0
  else if digits.isEmpty || !rest.isEmpty || !(digits.head?.any Char.isDigit) then
    throw (.noNumber text)
  else return if negative then -(min value (largest + 1) : Nat) else (min value largest : Nat)

/-- Variables with the values that they are given, the latest first. -/
abbrev Changes := List (String × Int)

/-- Evaluates an expression, given the values of variables. -/
def evaluate (lookup : String → Raw) : Expression → StateT Changes (Except Fault) Int
  | .number value => return value
  | .variable name => current name
  | .negative operand => do return wrap (-(← evaluate lookup operand))
  | .isZero operand => do return truth ((← evaluate lookup operand) = 0)
  | .complement operand => do return -1 - (← evaluate lookup operand)
  | .binary operator left right => do
    let first ← evaluate lookup left
    let second ← evaluate lookup right
    operator.apply first second
  | .both left right => do
    if (← evaluate lookup left) = 0 then return 0
    else return truth ((← evaluate lookup right) ≠ 0)
  | .either left right => do
    if (← evaluate lookup left) ≠ 0 then return 1
    else return truth ((← evaluate lookup right) ≠ 0)
  | .choice test yes no => do
    if (← evaluate lookup test) ≠ 0 then evaluate lookup yes else evaluate lookup no
  | .assign name operator value => do
    let right ← evaluate lookup value
    let result ←
      match operator with
      | none => pure right
      | some operator => do
        let left ← current name
        operator.apply left right
    modify fun changes => (name, result) :: changes
    return result
where
  /-- The value of a variable behind the changes so far. -/
  current (name : String) : StateT Changes (Except Fault) Int := do
    match (← get).lookup name with
    | some value => return value
    | none => valueOf (lookup name)

/-- The message for a fault in an expression. -/
def Fault.message (text : Raw) : Fault → Raw
  | .expecting what => (s!"arithmetic expression: expecting {what}: \"").toList ++ text ++ ['"']
  | .divisionByZero => "arithmetic expression: division by zero: \"".toList ++ text ++ ['"']
  | .noNumber value => "Illegal number: ".toList ++ value

end PomLens.Script.Arithmetic
