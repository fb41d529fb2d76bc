/-
This file defines utilities that pass on the lines of what they read: all of them or some, in
another order, numbered or counted.
-/

import PomLens.BuildTool.Script.Format
import PomLens.BuildTool.Script.Utility.Options

namespace PomLens.Script.Utility

/-! ### Passing on -/

/-- A number in a column of this width. -/
def column (width number : Nat) : Raw :=
  let digits := Raw.ofNat number
  List.replicate (width - digits.length) ' ' ++ digits

/-- Lines with numbers in front of those that are wanted: in columns of some width, with a
mark behind them, and counted from a first one. -/
def numbered (wanted : Raw → Bool) (width : Nat) (mark blank : Raw) (number : Nat) :
    List Raw → List Raw
  | [] => []
  | line :: rest =>
    if wanted line then
      (column width number ++ mark ++ line) :: numbered wanted width mark blank (number + 1) rest
    else (blank ++ line) :: numbered wanted width mark blank number rest

/-- Lines without blank lines behind other blank lines. -/
def squeezed : List Raw → List Raw
  | [] :: [] :: rest => squeezed ([] :: rest)
  | line :: rest => line :: squeezed rest
  | [] => []

/-- Changes the lines of a text, of which the last one need not have an end. -/
def onLines (change : List Raw → List Raw) (text : Raw) : Raw :=
  let changed := Raw.ofLines (change (Raw.lines text))
  if text.isEmpty || text.getLast? = some '\n' then changed else changed.dropLast

/-- The lines of a text with their ends, of which the last one need not have one. -/
def endedLines (text : Raw) : List Raw :=
  let lines := Raw.lines text
  let ended := lines.map fun line => line ++ ['\n']
  if text.isEmpty || text.getLast? = some '\n' then ended
  else ended.dropLast ++ lines.getLast?.toList

/-- A character in a form that can be seen. -/
def visible (char : Char) : Raw :=
  let code := char.toNat
  if code < 128 then shown char
  else 'M' :: '-' :: shown (Char.ofNat (code - 128))
where
  shown (char : Char) : Raw :=
    let code := char.toNat
    if code < 32 then ['^', Char.ofNat (code + 64)]
    else if code = 127 then ['^', '?']
    else [char]

/-- Writes files one after another. -/
def cat : Utility :=
  withManual ⟨"cat", "benstuvAET", "",
    [("number", 'n'), ("number-nonblank", 'b'), ("squeeze-blank", 's'), ("show-all", 'A'),
      ("show-ends", 'E'), ("show-tabs", 'T'), ("show-nonprinting", 'v')], 1⟩ fun call => do
    let (read, complete) ← inputs "cat" call.operands
    let text := (read.map Prod.snd).flatten
    let text := if call.has 's' then onLines squeezed text else text
    let ends := call.has 'E' || call.has 'A' || call.has 'e'
    let tabs := call.has 'T' || call.has 'A' || call.has 't'
    let others := call.has 'v' || call.has 'A' || call.has 'e' || call.has 't'
    let text := text.flatMap fun char =>
      if char = '\n' then if ends then ['$', '\n'] else ['\n']
      else if char = '\t' then if tabs then ['^', 'I'] else ['\t']
      else if others then visible char
      else [char]
    let text :=
      if call.has 'b' then onLines (numbered (fun line => !line.isEmpty) 6 ['\t'] [] 1) text
      else if call.has 'n' then onLines (numbered (fun _ => true) 6 ['\t'] [] 1) text
      else text
    Act.print text
    return statusOf complete

/-- Writes what it reads to the standard output and to files. -/
def tee : Utility :=
  withManual ⟨"tee", "aip", "", [("append", 'a')], 1⟩ fun call => do
    let text ← Act.readAll 0
    Act.print text
    let mut complete := true
    for file in call.operands do
      match ← output file text (call.has 'a') with
      | none => pure ()
      | some error =>
        complainOf "tee" file (Act.reason error)
        complete := false
    return statusOf complete

/-- Writes lines in the opposite order. -/
def tac : Utility :=
  withManual ⟨"tac", "", "", [], 1⟩ fun call => do
    let (read, complete) ← inputs "tac" call.operands
    for (_, text) in read do
      Act.print (endedLines text).reverse.flatten
    return statusOf complete

/-- Writes the characters of each line in the opposite order. -/
def rev : Utility :=
  withManual ⟨"rev", "", "", [], 1⟩ fun call => do
    let (read, complete) ← inputs "rev" call.operands
    for (_, text) in read do
      Act.print (onLines (fun lines => lines.map List.reverse) text)
    return statusOf complete

/-- Numbers lines, those that are empty apart. -/
def nl : Utility :=
  withManual ⟨"nl", "p", "bwsnv",
    [("body-numbering", 'b'), ("number-width", 'w'), ("number-separator", 's'),
      ("starting-line-number", 'v')], 1⟩ fun call => do
    let (read, complete) ← inputs "nl" call.operands
    let style := (call.value? 'b').getD ['t']
    let number (letter : Char) (usual : Nat) : Nat :=
      ((call.value? letter).bind Raw.nat?).getD usual
    let width := number 'w' 6
    let mark := (call.value? 's').getD ['\t']
    let wanted (line : Raw) : Bool := style == ['a'] || (style == ['t'] && !line.isEmpty)
    let blank := List.replicate (width + mark.length) ' '
    let lines := Raw.lines (read.map Prod.snd).flatten
    Act.print (Raw.ofLines (numbered wanted width mark blank (number 'v' 1) lines))
    return statusOf complete

/-! ### Beginnings and ends -/

/-- A count with a letter for its unit. -/
def count? (text : Raw) : Option Nat :=
  let digits := text.takeWhile Char.isDigit
  let unit :=
    match text.drop digits.length with
    | [] => some 1
    | ['b'] => some 512
    | ['k'] | ['K'] => some 1024
    | _ => none
  (Raw.nat? digits).bind fun number => unit.map (number * ·)

/-- Calls in which a count stands right behind a dash, as if it were given by a letter. -/
def withCount : List Raw → List Raw
  | ('-' :: char :: rest) :: words =>
    if char.isDigit then "-n".toList :: (char :: rest) :: words else ('-' :: char :: rest) :: words
  | words => words

/-- The pieces of a text that a count of lines or of bytes means. -/
def piecesOf (bytes : Bool) (text : Raw) : List Raw :=
  if bytes then text.map fun char => [char] else endedLines text

/-- Writes a part of each file, with a heading in front where there are several. -/
def parts (name : String) (part : Raw → Raw) (call : Call) : Act Nat := do
  let files := if call.operands.isEmpty then [['-']] else call.operands
  let headed := (files.length > 1 && !call.has 'q') || call.has 'v'
  let mut complete := true
  let mut first := true
  for file in files do
    match ← input file with
    | .error error =>
      let message :=
        if error = .isAFolder then "error reading '".toList ++ file ++ "': ".toList
        else "cannot open '".toList ++ file ++ "' for reading: ".toList
      Act.printError ((name ++ ": ").toList ++ message ++ Act.reason error)
      complete := false
    | .ok text =>
      if headed then
        let shown := if file = ['-'] then "standard input".toList else file
        Act.print ((if first then [] else ['\n']) ++ "==> ".toList ++ shown ++ " <==\n".toList)
      first := false
      Act.print (part text)
  return statusOf complete

/-- Writes the beginning of files. -/
def head : Utility := fun words =>
  withManual ⟨"head", "qvz", "nc",
    [("lines", 'n'), ("bytes", 'c'), ("quiet", 'q'), ("silent", 'q'), ("verbose", 'v')], 1⟩
    (fun call => do
      let bytes := call.last? "nc" == some 'c'
      let given := (call.value? (if bytes then 'c' else 'n')).getD "10".toList
      let (fromEnd, digits) :=
        match given with
        | '-' :: digits => (true, digits)
        | '+' :: digits => (false, digits)
        | digits => (false, digits)
      match count? digits with
      | none =>
        let kind := if bytes then "bytes" else "lines"
        complain "head" s!"invalid number of {kind}: '{String.ofList given}'"
        return 1
      | some count =>
        parts "head"
          (fun text =>
            let pieces := piecesOf bytes text
            (if fromEnd then pieces.take (pieces.length - count) else pieces.take count).flatten)
          call)
    (withCount words)

/-- Writes the end of files. -/
def tail : Utility := fun words =>
  withManual ⟨"tail", "qvzfF", "nc",
    [("lines", 'n'), ("bytes", 'c'), ("quiet", 'q'), ("silent", 'q'), ("verbose", 'v')], 1⟩
    (fun call => do
      let bytes := call.last? "nc" == some 'c'
      let given := (call.value? (if bytes then 'c' else 'n')).getD "10".toList
      let (fromStart, digits) :=
        match given with
        | '+' :: digits => (true, digits)
        | '-' :: digits => (false, digits)
        | digits => (false, digits)
      match count? digits with
      | none =>
        let kind := if bytes then "bytes" else "lines"
        complain "tail" s!"invalid number of {kind}: '{String.ofList given}'"
        return 1
      | some count =>
        parts "tail"
          (fun text =>
            let pieces := piecesOf bytes text
            (if fromStart then pieces.drop (count - 1)
              else pieces.drop (pieces.length - count)).flatten)
          call)
    (match words with
      | ('+' :: rest) :: others => "-n".toList :: ('+' :: rest) :: others
      | _ => withCount words)

/-! ### Counting -/

/-- The number of runs of characters that are no blanks. -/
def wordCount (text : Raw) : Nat :=
  ((Text.splitOn isSpace text).filter fun word => !word.isEmpty).length

/-- The counts that a call asks for, of a text. -/
def countsOf (call : Call) (text : Raw) : List Nat :=
  let plain := call.options.isEmpty
  let longest := (Raw.lines text).foldl (fun most line => max most line.length) 0
  (if plain || call.has 'l' then [text.count '\n'] else []) ++
    (if plain || call.has 'w' then [wordCount text] else []) ++
    (if call.has 'm' then [text.length] else []) ++
    (if plain || call.has 'c' then [text.length] else []) ++
    (if call.has 'L' then [longest] else [])

/-- Counts lines, words and bytes. The columns are as wide as the sizes of all files need. -/
def wc : Utility :=
  withManual ⟨"wc", "lwcmL", "",
    [("lines", 'l'), ("words", 'w'), ("bytes", 'c'), ("chars", 'm'), ("max-line-length", 'L')],
    1⟩ fun call => do
    let files := if call.operands.isEmpty then [['-']] else call.operands
    let zeros := countsOf call []
    let mut complete := true
    let mut rows := []
    let mut total := zeros
    let mut size := 0
    let mut least := 1
    for file in files do
      let inputSize ← if file = ['-'] then Act.inputSize? else pure none
      match ← input file with
      | .ok text =>
        let known := if file = ['-'] then inputSize
          else if (device? file).isSome then none else some text.length
        match known with
        | some known => size := size + known
        | none => least := 7
        let counts := countsOf call text
        total := List.zipWith (· + ·) total counts
        rows := rows ++ [(file, counts)]
      | .error error =>
        complainOf "wc" file (Act.reason error)
        complete := false
        if error = .isAFolder then
          least := 7
          rows := rows ++ [(file, zeros)]
    let width :=
      if files.length = 1 && zeros.length = 1 then 1 else max least (Raw.ofNat size).length
    for (file, row) in if files.length > 1 then rows ++ [("total".toList, total)] else rows do
      let name := if call.operands.isEmpty then [] else ' ' :: file
      Act.print (Raw.join [' '] (row.map (column width)) ++ name ++ ['\n'])
    return statusOf complete

/-! ### Making lines -/

/-- A decimal number: so many units of the place that stands so far behind the point. -/
structure Decimal where
  units : Int
  places : Nat
  deriving DecidableEq, Repr

/-- The decimal number that a text means. -/
def decimal? (text : Raw) : Option Decimal :=
  let (negative, digits) :=
    match text with
    | '-' :: rest => (true, rest)
    | '+' :: rest => (false, rest)
    | rest => (false, rest)
  let whole := digits.takeWhile (· != '.')
  let fraction := digits.drop (whole.length + 1)
  (Raw.nat? (whole ++ fraction)).map fun number =>
    ⟨if negative then -(number : Int) else number, fraction.length⟩

/-- The units of a number for a place that stands no less far behind the point. -/
def Decimal.unitsAt (number : Decimal) (places : Nat) : Int :=
  number.units * (Nat.pow 10 (places - number.places) : Nat)

/-- The digits of so many units of a place. -/
def decimalText (places : Nat) (units : Int) : Raw :=
  (if units < 0 then ['-'] else []) ++ Fraction.pointed (Raw.ofNat units.natAbs) places

/-- The numbers from one to another in steps. `fuel` bounds how many there are. -/
def numbers (fuel : Nat) (start step stop : Int) : List Int :=
  match fuel with
  | 0 => []
  | fuel + 1 =>
    if (0 < step && stop < start) || (step < 0 && start < stop) then []
    else start :: numbers fuel (start + step) step stop

/-- Writes the numbers from one to another. -/
def seq : Utility := fun words => do
  let (separator, equal, words) := options ['\n'] false words
  let ask (message : String) : Act Nat := do
    complain "seq" s!"{message}\nTry 'seq --help' for more information."
    return 1
  let run (start step stop : Decimal) : Act Nat := do
    let places := max start.places step.places
    let most := max places stop.places
    let unit : Int := (Nat.pow 10 (most - places) : Nat)
    let (first, next, last) := (start.unitsAt most, step.unitsAt most, stop.unitsAt most)
    let count := (last - first).natAbs / max 1 next.natAbs + 2
    let texts := (numbers count first next last).map fun units => decimalText places (units / unit)
    let width := texts.foldl (fun most text => max most text.length) 0
    let widened := texts.map fun text =>
      let zeros := List.replicate (if equal then width - text.length else 0) '0'
      match text with
      | '-' :: digits => '-' :: (zeros ++ digits)
      | digits => zeros ++ digits
    if !widened.isEmpty then Act.print (Raw.join separator widened ++ ['\n'])
    return 0
  match words.find? fun word => (decimal? word).isNone, words.map decimal? with
  | _, [] => ask "missing operand"
  | _, _ :: _ :: _ :: _ :: _ =>
    ask s!"extra operand '{String.ofList ((words[3]?).getD [])}'"
  | some wrong, _ => ask s!"invalid floating point argument: '{String.ofList wrong}'"
  | none, [some stop] => run ⟨1, 0⟩ ⟨1, 0⟩ stop
  | none, [some start, some stop] => run start ⟨1, 0⟩ stop
  | none, [some start, some step, some stop] =>
    if step.units = 0 then
      let shown := String.ofList ((words[1]?).getD [])
      ask s!"invalid Zero increment value: '{shown}'"
    else run start step stop
  | none, _ => return 1
where
  options (separator : Raw) (equal : Bool) : List Raw → Raw × Bool × List Raw
    | ['-', 's'] :: value :: rest => options value equal rest
    | ('-' :: 's' :: value) :: rest => options value equal rest
    | ['-', 'w'] :: rest => options separator true rest
    | words => (separator, equal, words)

/-- Writes a line very often. Nobody reads it to its end. -/
def yes : Utility := fun words => do
  let line := if words.isEmpty then ['y'] else Raw.join [' '] words
  Act.print (Raw.ofLines (List.replicate 4096 line))
  return 0

/-- Lines of several texts side by side. `fuel` bounds their number. -/
def sideBySide (fuel : Nat) (separators : Raw) (columns : List (List Raw)) : List Raw :=
  match fuel with
  | 0 => []
  | fuel + 1 =>
    if columns.all List.isEmpty then []
    else
      joined 0 (columns.map fun column => column.headD []) ::
        sideBySide fuel separators (columns.map List.tail)
where
  joined (place : Nat) : List Raw → Raw
    | [] => []
    | [last] => last
    | first :: rest =>
      first ++ (separators[place % max 1 separators.length]?).toList ++ joined (place + 1) rest

/-- Every so many of some lines. `fuel` bounds their number. -/
def everyFew (fuel few : Nat) (lines : List Raw) : List Raw :=
  match fuel, lines with
  | 0, _ | _, [] => []
  | fuel + 1, line :: rest => line :: everyFew fuel few (rest.drop (few - 1))

/-- Joins the lines of files side by side, or those of each file in one line. Files that are
all the standard input take its lines in turn. -/
def paste : Utility :=
  withManual ⟨"paste", "sz", "d", [("delimiters", 'd'), ("serial", 's')], 1⟩ fun call => do
    let files := if call.operands.isEmpty then [['-']] else call.operands
    let (read, complete) ← inputs "paste" files
    let separators := unescaped ((call.value? 'd').getD ['\t'])
    if call.has 's' then
      Act.print (Raw.ofLines (read.map fun (_, text) => sideBySide.joined separators 0 (Raw.lines text)))
    else if complete then
      let shares := files.count ['-']
      let common := Raw.lines ((read.lookup ['-']).getD [])
      let share (number : Nat) : List Raw := everyFew (common.length + 1) shares (common.drop number)
      let texts := read.zipIdx.map fun ((file, text), place) =>
        if file = ['-'] then share ((files.take place).count ['-']) else Raw.lines text
      let longest := texts.foldl (fun most lines => max most lines.length) 0
      Act.print (Raw.ofLines (sideBySide (longest + 1) separators texts))
    return statusOf complete
where
  unescaped : Raw → Raw
    | '\\' :: 'n' :: rest => '\n' :: unescaped rest
    | '\\' :: 't' :: rest => '\t' :: unescaped rest
    | '\\' :: '\\' :: rest => '\\' :: unescaped rest
    | '\\' :: '0' :: rest => unescaped rest
    | char :: rest => char :: unescaped rest
    | [] => []

/-- The column behind a character that stands in a column. -/
def columnBehind (bytes : Bool) (column : Nat) (char : Char) : Nat :=
  if bytes then column + 1
  else
    match char with
    | '\t' => column + 8 - column % 8
    | '\x08' => column - 1
    | '\r' => 0
    | _ => column + 1

/-- Breaks a line that is too wide. The piece at hand is given with its latest character first
and with the column behind it. -/
def broken (width : Nat) (bytes atBlanks : Bool) (column : Nat) (piece : Raw) : Raw → List Raw
  | [] => [piece.reverse]
  | char :: rest =>
    let behind := columnBehind bytes column char
    if behind ≤ width || piece.isEmpty then broken width bytes atBlanks behind (char :: piece) rest
    else
      let kept := if atBlanks then piece.dropWhile (fun char => !Text.isLineBlank char) else []
      let moved := if kept.isEmpty then [] else piece.takeWhile fun char => !Text.isLineBlank char
      let first := if kept.isEmpty then piece else kept
      let start := moved.reverse.foldl (columnBehind bytes) 0
      let next := columnBehind bytes start char
      if next ≤ width || moved.isEmpty then
        first.reverse :: broken width bytes atBlanks next (char :: moved) rest
      else
        first.reverse :: moved.reverse ::
          broken width bytes atBlanks (columnBehind bytes 0 char) [char] rest

/-- Breaks lines that are too wide. -/
def fold : Utility :=
  withManual ⟨"fold", "sb", "w", [("width", 'w'), ("spaces", 's'), ("bytes", 'b')], 1⟩ fun call => do
    let (read, complete) ← inputs "fold" call.operands
    let width := max 1 (((call.value? 'w').bind Raw.nat?).getD 80)
    for (_, text) in read do
      Act.print (onLines (List.flatMap (broken width (call.has 'b') (call.has 's') 0 [])) text)
    return statusOf complete

end PomLens.Script.Utility
