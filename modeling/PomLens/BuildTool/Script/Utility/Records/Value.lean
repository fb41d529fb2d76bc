/-
This file defines the values of programs for records.

A value is a number or a text, and each can be had as the other. What is read from the input
is a text that counts as a number where it looks like one.
-/

import PomLens.BuildTool.Script.Format
import PomLens.BuildTool.Script.Utility.Records.Program

namespace PomLens.Script

/-- The quotient that a finite float is. -/
def Fraction.ofFloat (value : Float) : Fraction :=
  let bits := value.abs.toBits.toNat
  let power := bits >>> 52
  let digits := bits % (1 <<< 52)
  if power = 0 then ⟨value < 0, digits, 1 <<< 1074⟩
  else
    let digits := digits + (1 <<< 52)
    if 1075 ≤ power then ⟨value < 0, digits <<< (power - 1075), 1⟩
    else ⟨value < 0, digits, 1 <<< (1075 - power)⟩

/-- The whole part of a quotient, its sign apart. -/
def Fraction.whole (value : Fraction) : Nat :=
  value.numerator / value.denominator

namespace Records

inductive Value
  | unset
  | number (value : Float)
  | text (value : Raw)
  /-- A text from the input. -/
  | input (value : Raw)
  deriving Repr

/-! ### Numbers -/

/-- The number at the start of a text, and what follows it. -/
def leading (text : Raw) : Float × Raw :=
  let trimmed := text.dropWhile isSpace
  let (negative, unsigned) :=
    match trimmed with
    | '-' :: rest => (true, rest)
    | '+' :: rest => (false, rest)
    | rest => (false, rest)
  let whole := unsigned.takeWhile Char.isDigit
  let behind := unsigned.drop whole.length
  let (fraction, behind) :=
    match behind with
    | '.' :: rest => (rest.takeWhile Char.isDigit, rest.dropWhile Char.isDigit)
    | _ => ([], behind)
  if whole.isEmpty && fraction.isEmpty then (0.0, text)
  else
    let (power, rest) :=
      match behind with
      | 'e' :: rest | 'E' :: rest =>
        let (below, digits) :=
          match rest with
          | '-' :: digits => (true, digits)
          | '+' :: digits => (false, digits)
          | digits => (false, digits)
        match Raw.nat? (digits.takeWhile Char.isDigit) with
        | none => ((0 : Int), behind)
        | some value =>
          let size : Int := min value 400
          (if below then -size else size, digits.dropWhile Char.isDigit)
      | _ => ((0 : Int), behind)
    let digits := (Raw.nat? (whole ++ fraction)).getD 0
    let shift := power - fraction.length
    let size := Float.ofScientific digits (shift < 0) shift.natAbs
    (if negative then -size else size, rest)

/-- The text is a number, blanks around it apart. -/
def looksNumeric (text : Raw) : Bool :=
  let rest := (leading text).2
  rest.length < text.length && rest.all isSpace

/-- The text of a number: digits for an integer, else in a format. -/
def numberText (format : Raw) (value : Float) : Raw :=
  if value.isNaN then "-nan".toList
  else if value.isInf then if value < 0 then "-inf".toList else "inf".toList
  else if value.floor == value && value.abs ≤ 9223372036854775808.0 then
    let size := Raw.ofNat (Fraction.ofFloat value).whole
    if value < 0 then '-' :: size else size
  else
    let precision := (Raw.nat? ((format.dropWhile fun char => !char.isDigit).takeWhile
      Char.isDigit)).getD 6
    let fraction := Fraction.ofFloat value
    let digits :=
      match format.getLast? with
      | some 'f' => fraction.fixed precision
      | some 'e' => fraction.scientific precision false
      | _ => fraction.general precision false
    if fraction.negative then '-' :: digits else digits

namespace Value

def toNumber : Value → Float
  | .unset => 0.0
  | .number value => value
  | .text value | .input value => (leading value).1

def toText (format : Raw) : Value → Raw
  | .unset => []
  | .number value => numberText format value
  | .text value | .input value => value

/-- The value counts as a number where two are compared. -/
def isNumeric : Value → Bool
  | .unset | .number _ => true
  | .text _ => false
  | .input value => looksNumeric value

def isTrue : Value → Bool
  | .unset => false
  | .number value => value != 0.0
  | .text value => !value.isEmpty
  | .input value => if looksNumeric value then (leading value).1 != 0.0 else !value.isEmpty

/-- The index that a value means. -/
def toIndex (value : Value) : Nat :=
  (Fraction.ofFloat value.toNumber).whole

def ofBool (value : Bool) : Value :=
  .number (if value then 1.0 else 0.0)

def ofNat (value : Nat) : Value :=
  .number (Float.ofNat value)

/-- Two values stand in a relation: as numbers if both are, else as texts. -/
def compare (format : Raw) (relation : Relation) (left right : Value) : Bool :=
  if left.isNumeric && right.isNumeric then
    let (left, right) := (left.toNumber, right.toNumber)
    match relation with
    | .less => left < right
    | .atMost => left ≤ right
    | .equal => left == right
    | .unequal => left != right
    | .greater => right < left
    | .atLeast => right ≤ left
  else
    let (left, right) := (left.toText format, right.toText format)
    match relation with
    | .less => Raw.le left right && left != right
    | .atMost => Raw.le left right
    | .equal => left == right
    | .unequal => left != right
    | .greater => Raw.le right left && left != right
    | .atLeast => Raw.le right left

end Value

/-- What comes of two numbers. -/
def Operation.apply (operation : Operation) (left right : Float) : Float :=
  match operation with
  | .plus => left + right
  | .minus => left - right
  | .times => left * right
  | .divided => left / right
  | .remainder =>
    let quotient := left / right
    let whole := if quotient < 0 then quotient.ceil else quotient.floor
    left - whole * right
  | .power => Float.pow left right

/-! ### Formats -/

/-- The values of a format's directives, one after another. -/
abbrev Arguments := List Value

/-- What a directive prints, given what stands between the percent sign and its letter. -/
def directive (layout : Layout) (letter : Char) (format : Raw) (value : Value) : Raw :=
  let whole (value : Float) : Bool × Nat :=
    ((Fraction.ofFloat value).negative, (Fraction.ofFloat value).whole)
  match letter with
  | 'd' | 'i' | 'u' =>
    let number := value.toNumber
    if number.isNaN || number.isInf then layout.pad (numberText format number)
    else
      let (negative, size) := whole number
      layout.integer (negative && size != 0) [] (Raw.ofNat size)
  | 'o' => layout.integer false [] (Nat.toDigits 8 (whole value.toNumber).2)
  | 'x' => layout.integer false [] (Nat.toDigits 16 (whole value.toNumber).2)
  | 'X' =>
    layout.integer false [] ((Nat.toDigits 16 (whole value.toNumber).2).map Char.toUpper)
  | 'c' =>
    match value with
    | .number number => layout.pad [Char.ofNat ((whole number).2 % 256)]
    | _ => layout.pad ((value.toText format).take 1)
  | 'f' | 'F' | 'e' | 'E' | 'g' | 'G' =>
    let number := value.toNumber
    if number.isNaN || number.isInf then layout.pad (numberText format number)
    else
      let fraction := Fraction.ofFloat number
      let precision := layout.precision.getD 6
      let digits :=
        match letter.toLower with
        | 'f' => fraction.fixed precision
        | 'e' => fraction.scientific precision (letter == 'E')
        | _ => fraction.general precision (letter == 'G')
      layout.padNumber true (if fraction.negative then ['-'] else layout.plus) digits
  | _ =>
    let text := value.toText format
    layout.pad (layout.precision.elim text text.take)

/-- A number of a directive, which may be an argument instead. -/
def directiveSize (text : Raw) (arguments : Arguments) : Option Int × Raw × Arguments :=
  match text with
  | '*' :: rest =>
    let fraction := Fraction.ofFloat (arguments.headD .unset).toNumber
    let size : Int := fraction.whole
    (some (if fraction.negative then -size else size), rest, arguments.tail)
  | _ =>
    let digits := text.takeWhile Char.isDigit
    ((Raw.nat? digits).map Int.ofNat, text.drop digits.length, arguments)

/-- What a format prints for values. There is none if it wants more values. `fuel` bounds the
number of its parts. -/
def formatted? (fuel : Nat) (convert format : Raw) (arguments : Arguments) : Option Raw :=
  match fuel, format with
  | 0, _ | _, [] => some []
  | fuel + 1, '%' :: '%' :: rest => (formatted? fuel convert rest arguments).map ('%' :: ·)
  | fuel + 1, '%' :: rest =>
    let (layout, behind) := Print.flags .plain rest
    let (width, behind, arguments) := directiveSize behind arguments
    let layout :=
      { layout with
        width := (width.getD 0).natAbs, left := layout.left || (width.getD 0) < 0 }
    let (layout, behind, arguments) :=
      match behind with
      | '.' :: behind =>
        let (precision, behind, arguments) := directiveSize behind arguments
        ({ layout with precision := some (precision.getD 0).toNat }, behind, arguments)
      | _ => (layout, behind, arguments)
    match behind, arguments with
    | [], _ => some ('%' :: rest)
    | letter :: after, value :: arguments =>
      (formatted? fuel convert after arguments).map (directive layout letter convert value ++ ·)
    | _, [] => none
  | fuel + 1, char :: rest => (formatted? fuel convert rest arguments).map (char :: ·)

end Records

end PomLens.Script
