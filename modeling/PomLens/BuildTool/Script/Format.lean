/-
This file defines the texts that scripts print: escapes and formats.

A format is a text with directives that take one argument each. It is used over and over
until no argument is left; where arguments run out, the missing ones are empty or zero. An
argument that is no number where one is needed is complained about, and printing goes on.
-/

import PomLens.BuildTool.Script.Arithmetic

namespace PomLens.Script

/-! ### Escapes -/

def isOctal (char : Char) : Bool :=
  '0' ≤ char && char ≤ '7'

/-- The character with the code that octal digits mean, of which only the lowest eight bits
count. -/
def octalChar (digits : Raw) : Char :=
  Char.ofNat (digits.foldl (fun value digit => 8 * value + (digit.toNat - '0'.toNat)) 0 % 256)

/-- The character that an escape stands for and the number of characters behind the backslash
that it takes up. -/
def escape? : Raw → Option (Char × Nat)
  | [] => none
  | char :: rest =>
    match char with
    | 'a' => some ('\x07', 1)
    | 'b' => some ('\x08', 1)
    | 'e' => some ('\x1b', 1)
    | 'f' => some ('\x0c', 1)
    | 'n' => some ('\n', 1)
    | 'r' => some ('\r', 1)
    | 't' => some ('\t', 1)
    | 'v' => some ('\x0b', 1)
    | '\\' => some ('\\', 1)
    | _ =>
      let digits := ((char :: rest).take 3).takeWhile isOctal
      if digits.isEmpty then none else some (octalChar digits, digits.length)

/-- A text with its escapes replaced, and whether it was broken off by an escape that says so.
An octal escape may have a zero in front of its three digits. `fuel` bounds the number of
characters. -/
def unescape (fuel : Nat) (text : Raw) : Raw × Bool :=
  match fuel, text with
  | 0, _ | _, [] => ([], false)
  | fuel + 1, '\\' :: rest =>
    let go (char : Char) (length : Nat) : Raw × Bool :=
      let (others, broken) := unescape fuel (rest.drop length)
      (char :: others, broken)
    match rest with
    | 'c' :: _ => ([], true)
    | '0' :: digits =>
      let digits := (digits.take 3).takeWhile isOctal
      go (octalChar digits) (digits.length + 1)
    | _ =>
      match escape? rest with
      | some (char, length) => go char length
      | none => go '\\' 0
  | fuel + 1, char :: rest =>
    let (others, broken) := unescape fuel rest
    (char :: others, broken)

/-- What is printed for some words. -/
def echoText (words : List Raw) : Raw :=
  let (words, ending) :=
    match words with
    | ['-', 'n'] :: rest => (rest, [])
    | _ => (words, ['\n'])
  let text := Raw.join [' '] words
  let (printed, broken) := unescape (text.length + 1) text
  if broken then printed else printed ++ ending

/-! ### Decimals -/

/-- A number that is a quotient of two. -/
structure Fraction where
  negative : Bool
  numerator : Nat
  denominator : Nat
  deriving Repr

namespace Fraction

/-- The nearest whole number to a quotient, the even one of two. -/
def rounded (numerator denominator : Nat) : Nat :=
  let whole := numerator / denominator
  let twice := 2 * (numerator % denominator)
  if twice < denominator || (twice = denominator && whole % 2 = 0) then whole else whole + 1

/-- Digits with a point in front of the last `places`. -/
def pointed (digits : Raw) (places : Nat) : Raw :=
  let padded := List.replicate (places + 1 - digits.length) '0' ++ digits
  let whole := padded.length - places
  if places = 0 then padded else padded.take whole ++ '.' :: padded.drop whole

/-- The digits with a fixed number of places. -/
def fixed (value : Fraction) (places : Nat) : Raw :=
  pointed (Raw.ofNat (rounded (value.numerator * Nat.pow 10 places) value.denominator)) places

/-- The power of ten of the first digit, and the digits behind it rounded to `places`. -/
def scientificParts (value : Fraction) (places : Nat) : Int × Raw :=
  if value.numerator = 0 then (0, List.replicate (places + 1) '0')
  else
    let estimate : Int :=
      (Raw.ofNat value.numerator).length - ((Raw.ofNat value.denominator).length : Int)
    let digitsAt (power : Int) : Nat :=
      let shift : Int := places - power
      if 0 ≤ shift then rounded (value.numerator * Nat.pow 10 shift.toNat) value.denominator
      else rounded value.numerator (value.denominator * Nat.pow 10 (-shift).toNat)
    let wanted (power : Int) : Bool := (Raw.ofNat (digitsAt power)).length = places + 1
    let power := ([estimate - 1, estimate, estimate + 1].find? wanted).getD estimate
    (power, Raw.ofNat (digitsAt power))

/-- The digits with a power of ten. -/
def scientific (value : Fraction) (places : Nat) (upper : Bool) : Raw :=
  let (power, digits) := value.scientificParts places
  let exponent := Raw.ofNat power.natAbs
  pointed digits places ++
    [if upper then 'E' else 'e', if power < 0 then '-' else '+'] ++
    (if exponent.length < 2 then '0' :: exponent else exponent)

/-- The digits in whichever of the two ways is shorter, without zeros at the end of the
fraction. -/
def general (value : Fraction) (precision : Nat) (upper : Bool) : Raw :=
  let precision := max 1 precision
  let (power, _) := value.scientificParts (precision - 1)
  if -4 ≤ power && power < precision then
    stripped (value.fixed ((precision : Int) - 1 - power).toNat)
  else
    let text := value.scientific (precision - 1) upper
    let number := text.takeWhile Char.isDigit ++ ((text.dropWhile Char.isDigit).takeWhile
      fun char => char == '.' || char.isDigit)
    stripped number ++ text.drop number.length
where
  /-- Without zeros behind a point, and without a point that nothing follows. -/
  stripped (text : Raw) : Raw :=
    if text.contains '.' then
      let shorter := Text.dropEndWhile (· == '0') text
      Text.dropEndWhile (· == '.') shorter
    else text

/-- The number at the start of a text and what follows it. -/
def read (text : Raw) : Fraction × Raw :=
  let (negative, unsigned) :=
    match text.dropWhile isSpace with
    | '-' :: rest => (true, rest)
    | '+' :: rest => (false, rest)
    | rest => (false, rest)
  let whole := unsigned.takeWhile Char.isDigit
  let behind := unsigned.drop whole.length
  let (fraction, behind) :=
    match behind with
    | '.' :: rest => (rest.takeWhile Char.isDigit, rest.dropWhile Char.isDigit)
    | _ => ([], behind)
  let (power, rest) :=
    match behind with
    | 'e' :: rest | 'E' :: rest =>
      let (below, digits) :=
        match rest with
        | '-' :: digits => (true, digits)
        | '+' :: digits => (false, digits)
        | digits => (false, digits)
      let run := digits.takeWhile Char.isDigit
      match Raw.nat? run with
      | none => ((0 : Int), behind)
      | some value => (if below then -(min value 400 : Nat) else (min value 400 : Nat),
          digits.drop run.length)
    | _ => ((0 : Int), behind)
  let digits := (Raw.nat? (whole ++ fraction)).getD 0
  if whole.isEmpty && fraction.isEmpty then (⟨false, 0, 1⟩, text)
  else
    let shift : Int := power - fraction.length
    if 0 ≤ shift then (⟨negative, digits * Nat.pow 10 shift.toNat, 1⟩, rest)
    else (⟨negative, digits, Nat.pow 10 (-shift).toNat⟩, rest)

end Fraction

/-! ### Directives -/

/-- A directive of a format, its letter apart. -/
structure Layout where
  /-- The text goes to the left of its field. -/
  left : Bool
  /-- Zeros instead of blanks fill the field. -/
  zeros : Bool
  /-- What stands in front of a number that is not negative. -/
  plus : Raw
  /-- The base of a number is shown. -/
  alternate : Bool
  width : Nat
  precision : Option Nat
  deriving Repr

def Layout.plain : Layout :=
  ⟨false, false, [], false, 0, none⟩

/-- The text in its field. -/
def Layout.pad (layout : Layout) (text : Raw) : Raw :=
  let filling := List.replicate (layout.width - text.length) ' '
  if layout.left then text ++ filling else filling ++ text

/-- A number in its field, given its sign and its digits. -/
def Layout.padNumber (layout : Layout) (zerosAllowed : Bool) (sign digits : Raw) : Raw :=
  if layout.zeros && zerosAllowed && !layout.left then
    sign ++ List.replicate (layout.width - sign.length - digits.length) '0' ++ digits
  else layout.pad (sign ++ digits)

/-- An integer in its field. -/
def Layout.integer (layout : Layout) (negative : Bool) (shown digits : Raw) : Raw :=
  let digits :=
    match layout.precision with
    | none => digits
    | some 0 => if digits = ['0'] then [] else digits
    | some precision => List.replicate (precision - digits.length) '0' ++ digits
  let sign := if negative then ['-'] else layout.plus
  layout.padNumber layout.precision.isNone (sign ++ shown) digits

/-- What printing has come to. -/
structure Printed where
  text : Raw
  /-- Complaints, the latest first. -/
  complaints : List Raw
  arguments : List Raw
  /-- Nothing more is printed. -/
  stopped : Bool
  /-- The format itself is wrong. -/
  failed : Bool

/-- A step of printing. -/
abbrev Print := StateM Printed

namespace Print

def write (text : Raw) : Print Unit :=
  modify fun printed => { printed with text := printed.text ++ text }

def complain (message : Raw) : Print Unit :=
  modify fun printed => { printed with complaints := message :: printed.complaints }

/-- Ends printing because of a fault of the format. -/
def fail (message : Raw) : Print Unit := do
  complain message
  modify fun printed => { printed with stopped := true, failed := true }

/-- The next argument, if there is one. -/
def next? : Print (Option Raw) := do
  match (← get).arguments with
  | [] => return none
  | first :: rest =>
    modify fun printed => { printed with arguments := rest }
    return some first

/-- Complains about what is left behind a number. -/
def checkRest (argument digits rest : Raw) : Print Unit := do
  if rest.length = digits.length then
    complain (argument ++ ": expected numeric value".toList)
  else if !rest.isEmpty then
    complain (argument ++ ": not completely converted".toList)

/-- The next argument as an integer between two bounds. -/
def integer (low high : Int) : Print Int := do
  match ← next? with
  | none => return 0
  | some ('"' :: char :: _) | some ('\'' :: char :: _) => return char.toNat
  | some argument =>
    if argument.isEmpty then return 0
    let trimmed := argument.dropWhile isSpace
    let (negative, digits) :=
      match trimmed with
      | '-' :: rest => (true, rest)
      | '+' :: rest => (false, rest)
      | rest => (false, rest)
    if !(digits.head?.any Char.isDigit) then
      complain (argument ++ ": expected numeric value".toList)
      return 0
    let (value, rest) := Arithmetic.readNumber digits
    let signed : Int := if negative then -(value : Int) else value
    if signed < low || high < signed then
      complain (argument ++ ": Numerical result out of range".toList)
      return if signed < low then low else high
    else
      checkRest argument digits rest
      return signed

/-- The next argument as a decimal. -/
def decimal : Print Fraction := do
  match ← next? with
  | none => return ⟨false, 0, 1⟩
  | some ('"' :: char :: _) | some ('\'' :: char :: _) => return ⟨false, char.toNat, 1⟩
  | some argument =>
    let (value, rest) := Fraction.read argument
    if !argument.isEmpty then checkRest argument argument rest
    return value

/-- The digits of a number in base 16. -/
def hexDigits (upper : Bool) (value : Nat) : Raw :=
  (Nat.toDigits 16 value).map fun char => if upper then char.toUpper else char

/-- Prints one directive. -/
def directive (layout : Layout) (written : Raw) (letter : Char) : Print Unit := do
  let largest : Int := Arithmetic.largest
  let unsigned : Print Nat := do return Arithmetic.bits (← integer (-2 * largest - 1) (2 * largest + 1))
  match letter with
  | 's' =>
    let text := (← next?).getD []
    write (layout.pad (match layout.precision with
      | none => text
      | some precision => text.take precision))
  | 'b' =>
    let text := (← next?).getD []
    let (shown, broken) := unescape (text.length + 1) text
    write (layout.pad (match layout.precision with
      | none => shown
      | some precision => shown.take precision))
    if broken then modify fun printed => { printed with stopped := true }
  | 'c' => write (layout.pad [((← next?).bind List.head?).getD '\x00'])
  | 'd' | 'i' =>
    let value ← integer (-largest - 1) largest
    write (layout.integer (value < 0) [] (Raw.ofNat value.natAbs))
  | 'u' => write ({ layout with plus := [] }.integer false [] (Raw.ofNat (← unsigned)))
  | 'o' =>
    let digits := Nat.toDigits 8 (← unsigned)
    let shown := if layout.alternate && digits != ['0'] then '0' :: digits else digits
    write ({ layout with plus := [] }.integer false [] shown)
  | 'x' | 'X' =>
    let value ← unsigned
    let shown := if layout.alternate && value ≠ 0 then ['0', letter] else []
    write ({ layout with plus := [] }.integer false shown (hexDigits (letter == 'X') value))
  | 'f' | 'F' | 'e' | 'E' | 'g' | 'G' =>
    let value ← decimal
    let precision := layout.precision.getD 6
    let digits :=
      match letter.toLower with
      | 'f' => value.fixed precision
      | 'e' => value.scientific precision (letter == 'E')
      | _ => value.general precision (letter == 'G')
    write (layout.padNumber true (if value.negative then ['-'] else layout.plus) digits)
  | _ => fail ('%' :: written ++ [letter] ++ ": invalid directive".toList)

/-- Reads the flags in front of a directive. -/
def flags (layout : Layout) : Raw → Layout × Raw
  | [] => (layout, [])
  | char :: rest =>
    match char with
    | '-' => flags { layout with left := true } rest
    | '0' => flags { layout with zeros := true } rest
    | '+' => flags { layout with plus := ['+'] } rest
    | ' ' => flags { layout with plus := if layout.plus.isEmpty then [' '] else layout.plus } rest
    | '#' => flags { layout with alternate := true } rest
    | _ => (layout, char :: rest)

/-- Reads a number that may be an argument instead. -/
def size (text : Raw) : Print (Option Int × Raw) := do
  match text with
  | '*' :: rest => return (some (← integer (-Arithmetic.largest) Arithmetic.largest), rest)
  | _ =>
    let digits := text.takeWhile Char.isDigit
    return ((Raw.nat? digits).map Int.ofNat, text.drop digits.length)

/-- Prints a format once. `fuel` bounds the number of its parts. -/
def once (fuel : Nat) (format : Raw) : Print Unit := do
  match fuel with
  | 0 => return
  | fuel + 1 =>
    if (← get).stopped then return
    match format with
    | [] => return
    | '\\' :: rest =>
      match escape? rest with
      | some (char, length) =>
        write [char]
        once fuel (rest.drop length)
      | none =>
        write ['\\']
        once fuel rest
    | '%' :: '%' :: rest =>
      write ['%']
      once fuel rest
    | '%' :: rest =>
      let (layout, behind) := flags .plain rest
      let (width, behind) ← size behind
      let layout :=
        match width with
        | none => layout
        | some width =>
          { layout with width := width.natAbs, left := layout.left || width < 0 }
      let (layout, behind) ←
        match behind with
        | '.' :: behind => do
          let (precision, behind) ← size behind
          pure ({ layout with precision := some (precision.getD 0).toNat }, behind)
        | _ => pure (layout, behind)
      match behind with
      | [] => fail "missing format character".toList
      | letter :: after =>
        directive layout (rest.take (rest.length - behind.length)) letter
        once fuel after
    | char :: rest =>
      write [char]
      once fuel rest

/-- Prints a format as often as there are arguments for it. `fuel` bounds the number of
arguments. -/
def all (fuel : Nat) (format : Raw) : Print Unit := do
  match fuel with
  | 0 => return
  | fuel + 1 =>
    let before := (← get).arguments.length
    once (format.length + 1) format
    let printed ← get
    if !printed.stopped && !printed.arguments.isEmpty && printed.arguments.length < before then
      all fuel format

end Print

/-- What a format prints for arguments. -/
def formatText (format : Raw) (arguments : List Raw) : Printed :=
  ((Print.all (arguments.length + 1) format).run ⟨[], [], arguments, false, false⟩).2

end PomLens.Script
