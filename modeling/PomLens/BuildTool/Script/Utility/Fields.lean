/-
This file defines utilities that look into lines: they sort lines by their fields, compare
neighbours, cut out columns and replace characters.
-/

import PomLens.BuildTool.Script.Pattern
import PomLens.BuildTool.Script.Utility.Lines

namespace PomLens.Script.Utility

/-! ### Sorting -/

/-- What the texts of a key are compared by. -/
inductive Measure
  | bytes
  /-- The number at the start. -/
  | number
  /-- The number at the start with a letter for its unit. -/
  | size
  /-- The number at the start, which may have a power of ten behind it. -/
  | quantity
  /-- Numbers inside names. -/
  | version
  deriving DecidableEq, Repr

/-- How the texts of a key are compared. -/
structure Order where
  measure : Measure
  reverse : Bool
  /-- Letters of both cases are alike. -/
  folded : Bool
  /-- Blanks in front do not count. -/
  trimmed : Bool
  /-- Only letters, digits and blanks count. -/
  dictionary : Bool
  deriving DecidableEq, Repr

def Order.plain : Order :=
  ⟨.bytes, false, false, false, false⟩

/-- The order with what a letter asks for. -/
def Order.with (order : Order) (letter : Char) : Order :=
  match letter with
  | 'n' => { order with measure := .number }
  | 'g' => { order with measure := .quantity }
  | 'h' => { order with measure := .size }
  | 'V' => { order with measure := .version }
  | 'r' => { order with reverse := true }
  | 'f' => { order with folded := true }
  | 'b' => { order with trimmed := true }
  | 'd' => { order with dictionary := true }
  | _ => order

/-- The number at the start of a text: its sign, and its digits in front of and behind the
point without needless zeros. -/
def leadingNumber (text : Raw) : Bool × Raw × Raw :=
  let text := text.dropWhile Text.isLineBlank
  let (negative, digits) :=
    match text with
    | '-' :: rest => (true, rest)
    | rest => (false, rest)
  let whole := digits.takeWhile Char.isDigit
  let fraction :=
    match digits.drop whole.length with
    | '.' :: rest => rest.takeWhile Char.isDigit
    | _ => []
  let whole := whole.dropWhile (· == '0')
  let fraction := Text.dropEndWhile (· == '0') fraction
  (negative && !(whole.isEmpty && fraction.isEmpty), whole, fraction)

/-- Compares two texts by the numbers at their starts. -/
def compareNumbers (left right : Raw) : Ordering :=
  let (leftNegative, leftWhole, leftFraction) := leadingNumber left
  let (rightNegative, rightWhole, rightFraction) := leadingNumber right
  let size : Ordering :=
    (compare leftWhole.length rightWhole.length).then
      ((bytes leftWhole rightWhole).then (bytes leftFraction rightFraction))
  match leftNegative, rightNegative with
  | true, false => .lt
  | false, true => .gt
  | false, false => size
  | true, true => size.swap
where
  bytes (left right : Raw) : Ordering :=
    if left = right then .eq else if Raw.le left right then .lt else .gt

/-- The rank of the unit behind the number at the start of a text: zero if there is none. -/
def unitRank (text : Raw) : Int :=
  let (negative, whole, fraction) := leadingNumber text
  let behind := (text.dropWhile Text.isLineBlank).dropWhile fun char =>
    char == '-' || char == '.' || char.isDigit
  let letter := (behind.headD ' ').toUpper
  let rank := ("KMGTPEZYRQ".toList.findIdx? (· == letter)).elim 0 (· + 1)
  if whole.isEmpty && fraction.isEmpty then 0 else if negative then -(rank : Int) else rank

/-- Compares two texts by the numbers at their starts, which may have units. -/
def compareSizes (left right : Raw) : Ordering :=
  (compare (unitRank left) (unitRank right)).then (compareNumbers left right)

/-- The number at the start of a text with its power of ten, as units and as the power by which
they are multiplied. -/
def quantity? (text : Raw) : Option (Int × Int) :=
  let text := text.dropWhile isSpace
  let number := text.takeWhile fun char => char == '-' || char == '+' || char == '.' || char.isDigit
  let power :=
    match text.drop number.length with
    | 'e' :: rest | 'E' :: rest =>
      let sign := rest.takeWhile fun char => char == '-' || char == '+'
      let digits := (rest.drop sign.length).takeWhile Char.isDigit
      ((decimal? (sign ++ digits)).map Decimal.units).getD 0
    | _ => 0
  (decimal? number).map fun decimal => (decimal.units, power - decimal.places)

/-- Compares two texts by the numbers at their starts, which may have powers of ten. What has
no number is the least. -/
def compareQuantities (left right : Raw) : Ordering :=
  match quantity? left, quantity? right with
  | none, none => .eq
  | none, some _ => .lt
  | some _, none => .gt
  | some (leftUnits, leftPower), some (rightUnits, rightPower) =>
    let scaled (units power other : Int) : Int :=
      units * (Nat.pow 10 (min 400 (power - min power other).toNat) : Nat)
    compare (scaled leftUnits leftPower rightPower) (scaled rightUnits rightPower leftPower)

/-- Compares two texts in which runs of digits are numbers. `fuel` bounds the number of
runs. -/
def compareVersions (fuel : Nat) (left right : Raw) : Ordering :=
  match fuel with
  | 0 => .eq
  | fuel + 1 =>
    let textOf (raw : Raw) := raw.takeWhile fun char => !char.isDigit
    let leftText := textOf left
    let rightText := textOf right
    if leftText ≠ rightText then compareNumbers.bytes leftText rightText
    else
      let left := left.drop leftText.length
      let right := right.drop rightText.length
      if left.isEmpty || right.isEmpty then compare left.length right.length
      else
        let leftNumber := left.takeWhile Char.isDigit
        let rightNumber := right.takeWhile Char.isDigit
        (compareNumbers leftNumber rightNumber).then
          (compareVersions fuel (left.drop leftNumber.length) (right.drop rightNumber.length))

def Order.compare (order : Order) (left right : Raw) : Ordering :=
  let prepared (text : Raw) : Raw :=
    let text := if order.trimmed then text.dropWhile Text.isLineBlank else text
    let text :=
      if order.dictionary then text.filter fun char => char.isAlphanum || Text.isLineBlank char
      else text
    if order.folded then text.map Char.toUpper else text
  let result :=
    match order.measure with
    | .bytes => compareNumbers.bytes (prepared left) (prepared right)
    | .number => compareNumbers left right
    | .size => compareSizes left right
    | .quantity => compareQuantities left right
    | .version => compareVersions (left.length + 1) left right
  if order.reverse then result.swap else result

/-- A part of a line by which lines are sorted: from a character of a field to one of another,
counted from one. -/
structure SortKey where
  firstField : Nat
  firstChar : Nat
  lastField : Option Nat
  lastChar : Nat
  order : Option Order

/-- The places of the fields of a line: where each starts and ends. Without a separator, the
blanks in front of a field belong to it. -/
def fieldPlaces (separator : Option Char) (line : Raw) : List (Nat × Nat) :=
  match separator with
  | some char => go 0 (Text.splitOn (· == char) line)
  | none => blanks (line.length + 1) 0 line
where
  go (start : Nat) : List Raw → List (Nat × Nat)
    | [] => []
    | field :: rest => (start, start + field.length) :: go (start + field.length + 1) rest
  blanks (fuel start : Nat) (line : Raw) : List (Nat × Nat) :=
    match fuel with
    | 0 => []
    | fuel + 1 =>
      if line.isEmpty then []
      else
        let front := line.takeWhile Text.isLineBlank
        let word := (line.drop front.length).takeWhile fun char => !Text.isLineBlank char
        let length := front.length + word.length
        (start, start + length) :: blanks fuel (start + length) (line.drop length)

/-- The text of a key in a line. -/
def SortKey.text (key : SortKey) (separator : Option Char) (trimmed : Bool) (line : Raw) : Raw :=
  let places := fieldPlaces separator line
  let blanksAt (start : Nat) : Nat :=
    if trimmed then ((line.drop start).takeWhile Text.isLineBlank).length else 0
  let first :=
    match places[key.firstField - 1]? with
    | none => line.length
    | some (start, _) => start + blanksAt start + (key.firstChar - 1)
  let last :=
    match key.lastField with
    | none => line.length
    | some field =>
      match places[field - 1]? with
      | none => line.length
      | some (start, stop) =>
        if key.lastChar = 0 then stop else start + blanksAt start + key.lastChar
  (line.take last).drop first

/-- Reads a key as it is given: two positions with a comma between them, of which the second
may be missing. -/
def SortKey.read? (text : Raw) : Option SortKey :=
  let (first, last) := (Text.splitOnce? (· == ',') text).getD (text, [])
  let position (text : Raw) : Option (Nat × Nat × Raw) :=
    let field := text.takeWhile Char.isDigit
    match Raw.nat? field, text.drop field.length with
    | none, _ => none
    | some field, '.' :: rest =>
      let char := rest.takeWhile Char.isDigit
      (Raw.nat? char).map fun char => (field, char, rest.dropWhile Char.isDigit)
    | some field, rest => some (field, 0, rest)
  match position first with
  | none => none
  | some (field, char, letters) =>
    let (lastField, lastChar, more) :=
      match position last with
      | none => (none, 0, [])
      | some (field, char, more) => (some field, char, more)
    let letters := letters ++ more
    if field = 0 then none
    else
      some ⟨field, max 1 char, lastField, lastChar,
        if letters.isEmpty then none else some (letters.foldl Order.with .plain)⟩

/-- Sorts lines. -/
def sort : Utility :=
  withManual ⟨"sort", "nrufbshgVdciCmz", "kto",
    [("numeric-sort", 'n'), ("reverse", 'r'), ("unique", 'u'), ("key", 'k'),
      ("field-separator", 't'), ("output", 'o'), ("stable", 's'), ("ignore-case", 'f'),
      ("version-sort", 'V'), ("check", 'c'), ("merge", 'm'), ("human-numeric-sort", 'h'),
      ("general-numeric-sort", 'g')], 2⟩ fun call => do
    let mut texts := []
    for file in if call.operands.isEmpty then [['-']] else call.operands do
      match ← input file with
      | .ok text => texts := text :: texts
      | .error error =>
        complainOf "sort" (if error = .isAFolder then "read failed".toList else "cannot read".toList)
          (file ++ ": ".toList ++ Act.reason error)
        return 2
    let lines := texts.reverse.flatMap Raw.lines
    let order := (call.options.map Prod.fst).foldl Order.with .plain
    let separator := (call.value? 't').bind List.head?
    let keys := (call.values 'k').filterMap SortKey.read?
    let compareKey (key : SortKey) (left right : Raw) : Ordering :=
      let order := key.order.getD order
      order.compare (key.text separator order.trimmed left) (key.text separator order.trimmed right)
    let compareKeys (left right : Raw) : Ordering :=
      if keys.isEmpty then order.compare left right
      else keys.foldl (fun result key => result.then (compareKey key left right)) .eq
    let compareLines (left right : Raw) : Ordering :=
      let last := compareNumbers.bytes left right
      let last := if call.has 's' || call.has 'u' then .eq else if order.reverse then last.swap else last
      (compareKeys left right).then last
    if call.has 'c' || call.has 'C' then
      let pairs := List.zip lines lines.tail
      match pairs.findIdx? fun (first, second) => compareLines first second == .gt with
      | none => return 0
      | some place =>
        let file := call.operands.headD ['-']
        if call.has 'c' then
          let line := (lines[place + 1]?).getD []
          complainOf "sort" (file ++ ':' :: Raw.ofNat (place + 2)) ("disorder: ".toList ++ line)
        return 1
    let before (left right : Raw) : Bool := compareLines left right != .gt
    let sorted :=
      if call.has 'm' then
        (texts.reverse.map Raw.lines).foldl (fun merged next => merged.merge next before) []
      else lines.mergeSort before
    let kept := if call.has 'u' then distinct compareKeys sorted else sorted
    match call.value? 'o' with
    | none =>
      Act.print (Raw.ofLines kept)
      return 0
    | some file =>
      match ← output file (Raw.ofLines kept) false with
      | none => return 0
      | some error =>
        complainOf "sort" ("open failed: ".toList ++ file) (Act.reason error)
        return 2
where
  /-- The first of each run of lines that are alike. -/
  distinct (compare : Raw → Raw → Ordering) : List Raw → List Raw
    | [] => []
    | first :: rest => first :: go compare first rest
  go (compare : Raw → Raw → Ordering) (last : Raw) : List Raw → List Raw
    | [] => []
    | line :: rest =>
      if compare last line == .eq then go compare last rest else line :: go compare line rest

/-! ### Neighbours -/

/-- The runs of neighbours that are alike. -/
def runsOf (alike : Raw → Raw → Bool) : List Raw → List (List Raw)
  | [] => []
  | line :: rest =>
    match runsOf alike rest with
    | (next :: others) :: runs =>
      if alike line next then (line :: next :: others) :: runs
      else [line] :: (next :: others) :: runs
    | runs => [line] :: runs

/-- Passes on the first of each run of lines that are alike. -/
def uniq : Utility :=
  withManual ⟨"uniq", "cdui", "fsw",
    [("count", 'c'), ("repeated", 'd'), ("unique", 'u'), ("ignore-case", 'i'),
      ("skip-fields", 'f'), ("skip-chars", 's'), ("check-chars", 'w')], 1⟩ fun call => do
    match ← input (call.operands.headD ['-']) with
    | .error error =>
      complainOf "uniq" (call.operands.headD ['-']) (Act.reason error)
      return 1
    | .ok text =>
      let number (letter : Char) : Nat := ((call.value? letter).bind Raw.nat?).getD 0
      let view (line : Raw) : Raw :=
        let places := fieldPlaces none line
        let start := (((places.take (number 'f')).getLast?).map Prod.snd).getD 0
        let line := (line.drop start).drop (number 's')
        let line := ((call.value? 'w').bind Raw.nat?).elim line line.take
        if call.has 'i' then line.map Char.toLower else line
      let runs := runsOf (fun left right => view left == view right) (Raw.lines text)
      let wanted := runs.filter fun run =>
        (!call.has 'd' || run.length > 1) && (!call.has 'u' || run.length = 1)
      let shown := wanted.map fun run =>
        (if call.has 'c' then column 7 run.length ++ [' '] else []) ++ run.headD []
      let result := Raw.ofLines shown
      match call.operands with
      | [_, target] =>
        let _ ← output target result false
        return 0
      | _ =>
        Act.print result
        return 0

/-- Compares two sorted texts line by line. `fuel` bounds the number of lines. -/
def comparedLines (fuel : Nat) (left right : List Raw) : List (Nat × Raw) :=
  match fuel, left, right with
  | 0, _, _ | _, [], [] => []
  | fuel + 1, first :: rest, [] => (1, first) :: comparedLines fuel rest []
  | fuel + 1, [], first :: rest => (2, first) :: comparedLines fuel [] rest
  | fuel + 1, first :: rest, other :: others =>
    if first = other then (3, first) :: comparedLines fuel rest others
    else if Raw.le first other then (1, first) :: comparedLines fuel rest (other :: others)
    else (2, other) :: comparedLines fuel (first :: rest) others

/-- Each line stands in front of the next one in the order of texts. -/
def inOrder : List Raw → Bool
  | first :: second :: rest => Raw.le first second && inOrder (second :: rest)
  | _ => true

/-- Shows which lines two sorted files have in common. -/
def comm : Utility :=
  withManual ⟨"comm", "123", "", [], 1⟩ fun call => do
    let ask (message : String) : Act Nat := do
      complain "comm" s!"{message}\nTry 'comm --help' for more information."
      return 1
    match call.operands with
    | [] => ask "missing operand"
    | [one] => ask s!"missing operand after '{String.ofList one}'"
    | _ :: _ :: extra :: _ => ask s!"extra operand '{String.ofList extra}'"
    | [_, _] =>
      let (read, complete) ← inputs "comm" call.operands
      match read.map fun (_, text) => Raw.lines text with
      | [left, right] =>
        let shows (kind : Nat) : Bool := !(call.has (Char.ofNat (kind + 48)))
        let lines := comparedLines (left.length + right.length + 1) left right
        for (kind, line) in lines do
          if shows kind then
            let before := ((List.range kind).tail.filter shows).length
            Act.print (List.replicate before '\t' ++ line ++ ['\n'])
        let unlike := lines.any fun (kind, _) => kind != 3
        let wrong := if unlike then [(1, left), (2, right)].filter fun (_, lines) => !inOrder lines
          else []
        for (number, _) in wrong do
          complain "comm" s!"file {number} is not in sorted order"
        if !wrong.isEmpty then complain "comm" "input is not in sorted order"
        return statusOf (complete && wrong.isEmpty)
      | _ => return statusOf complete

/-! ### Columns -/

/-- Ranges of columns, counted from one. A range may have no end. -/
abbrev Columns := List (Nat × Option Nat)

/-- What is wrong with ranges of columns. -/
inductive ColumnsFault
  /-- Columns are counted from one. -/
  | zero
  /-- A range ends in front of its start. -/
  | decreasing
  /-- A range has neither a start nor an end. -/
  | endless
  /-- A range has two dashes. -/
  | twoDashes
  /-- Something that is no number. -/
  | wrong (rest : Raw)
  deriving DecidableEq, Repr

/-- The words for it, where columns are fields or not. -/
def ColumnsFault.message (fields : Bool) : ColumnsFault → String
  | .zero =>
    if fields then "fields are numbered from 1" else "byte/character positions are numbered from 1"
  | .decreasing => "invalid decreasing range"
  | .endless => "invalid range with no endpoint: -"
  | .twoDashes => if fields then "invalid field range" else "invalid byte or character range"
  | .wrong rest =>
    let kind := if fields then "field value" else "byte/character position"
    s!"invalid {kind} '{String.ofList rest}'"

/-- A range, given the digits of its ends. -/
def rangeOf (first last : Raw) : Except ColumnsFault (Nat × Option Nat) :=
  match Raw.nat? first, Raw.nat? last with
  | some 0, _ => throw .zero
  | none, none => throw .endless
  | start, none => return (start.getD 1, none)
  | start, some stop =>
    if stop < start.getD 1 then throw .decreasing else return (start.getD 1, some stop)

/-- Reads ranges of columns. `fuel` bounds their number. -/
def readColumns (fuel : Nat) (text : Raw) : Except ColumnsFault Columns :=
  match fuel with
  | 0 => return []
  | fuel + 1 =>
    let first := text.takeWhile Char.isDigit
    let behind := text.drop first.length
    let goOn (range : Nat × Option Nat) (rest : Raw) : Except ColumnsFault Columns :=
      match rest with
      | [] => return [range]
      | _ :: rest => (range :: ·) <$> readColumns fuel rest
    let isEnd (rest : Raw) : Bool := rest.isEmpty || (rest.head?.any fun char => char == ',' || Text.isLineBlank char)
    match behind with
    | '-' :: more =>
      let last := more.takeWhile Char.isDigit
      let rest := more.drop last.length
      if isEnd rest then do goOn (← rangeOf first last) rest
      else if Raw.nat? first == some 0 then throw .zero
      else if rest.head? == some '-' then throw .twoDashes
      else throw (.wrong rest)
    | rest =>
      if !isEnd rest then throw (.wrong rest)
      else
        match (Raw.nat? first).getD 0 with
        | 0 => throw .zero
        | number => goOn (number, some number) rest

def Columns.contain (columns : Columns) (number : Nat) : Bool :=
  columns.any fun (first, last) => first ≤ number && last.all (number ≤ ·)

/-- What stands in some columns. -/
def chosen {α : Type} (columns : Columns) (complement : Bool) (items : List α) : List α :=
  (items.zipIdx.filter fun (_, place) => columns.contain (place + 1) != complement).map Prod.fst

/-- Cuts columns out of lines. -/
def cut : Utility :=
  withManual ⟨"cut", "snz1", "dfcbO",
    [("delimiter", 'd'), ("fields", 'f'), ("characters", 'c'), ("bytes", 'b'),
      ("only-delimited", 's'), ("complement", '1'), ("output-delimiter", 'O')], 1⟩ fun call => do
    let ask (message : String) : Act Nat := do
      complain "cut" s!"{message}\nTry 'cut --help' for more information."
      return 1
    let separator := (call.value? 'd').getD ['\t']
    let lists := call.options.filter fun (letter, _) => "fcb".toList.contains letter
    match lists with
    | [] => ask "you must specify a list of bytes, characters, or fields"
    | _ :: _ :: _ => ask "only one list may be specified"
    | [(kind, list)] =>
      if 1 < separator.length then ask "the delimiter must be a single character"
      else if kind != 'f' && call.has 'd' then
        ask "an input delimiter may be specified only when operating on fields"
      else if kind != 'f' && call.has 's' then
        ask "suppressing non-delimited lines makes sense\n\tonly when operating on fields"
      else
        match readColumns (list.length + 1) list with
        | .error fault => ask (fault.message (kind == 'f'))
        | .ok columns =>
          let (read, complete) ← inputs "cut" call.operands
          let complement := call.has '1'
          for (_, text) in read do
            let shown := (Raw.lines text).filterMap fun line =>
              if kind != 'f' then some (chosen columns complement line)
              else
                let char := separator.headD '\x00'
                if !line.contains char then if call.has 's' then none else some line
                else
                  some (Raw.join ((call.value? 'O').getD [char])
                    (chosen columns complement (Text.splitOn (· == char) line)))
            Act.print (Raw.ofLines shown)
          return statusOf complete

/-! ### Characters -/

/-- The characters of a set as it is given: ranges, classes and escapes stand for their
characters. `fuel` bounds the number of parts. -/
def setChars (fuel : Nat) (text : Raw) : Except String Raw :=
  match fuel, text with
  | 0, _ | _, [] => return []
  | fuel + 1, '[' :: ':' :: rest =>
    let name := rest.takeWhile Char.isAlpha
    match rest.drop name.length, classTest? (String.ofList name) with
    | ':' :: ']' :: after, some test => do
      return ((List.range 256).map Char.ofNat).filter test ++ (← setChars fuel after)
    | ':' :: ']' :: _, none => throw s!"invalid character class '{String.ofList name}'"
    | _, _ => do return '[' :: (← setChars fuel (':' :: rest))
  | fuel + 1, text =>
    let (first, after) := one text
    match after with
    | '-' :: next :: rest => do
      let (last, behind) := one (next :: rest)
      if last.toNat < first.toNat then
        throw s!"range-endpoints of '{first}-{last}' are in reverse collating sequence order"
      let range := (List.range (last.toNat + 1 - first.toNat)).map fun offset =>
        Char.ofNat (first.toNat + offset)
      return range ++ (← setChars fuel behind)
    | _ => do return first :: (← setChars fuel after)
where
  one : Raw → Char × Raw
    | '\\' :: 'n' :: rest => ('\n', rest)
    | '\\' :: 't' :: rest => ('\t', rest)
    | '\\' :: 'r' :: rest => ('\r', rest)
    | '\\' :: 'f' :: rest => ('\x0c', rest)
    | '\\' :: 'v' :: rest => ('\x0b', rest)
    | '\\' :: 'a' :: rest => ('\x07', rest)
    | '\\' :: 'b' :: rest => ('\x08', rest)
    | '\\' :: char :: rest =>
      let digits := ((char :: rest).take 3).takeWhile fun char => '0' ≤ char && char ≤ '7'
      if digits.isEmpty then (char, rest)
      else
        (Char.ofNat (digits.foldl (fun value digit => 8 * value + (digit.toNat - 48)) 0 % 256),
          (char :: rest).drop digits.length)
    | char :: rest => (char, rest)
    | [] => ('\x00', [])

/-- A text in which runs of the same character from a set are one. -/
def squeezeRuns (set : Raw) : Raw → Raw
  | first :: second :: rest =>
    if first = second && set.contains first then squeezeRuns set (second :: rest)
    else first :: squeezeRuns set (second :: rest)
  | text => text

/-- What replaces each character of a set: the one at the same place of another set, of which
the last one stands for all further ones. -/
def replacements (set target : Raw) : List (Char × Char) :=
  let last := target.getLast?.getD '\x00'
  (List.zip set (target ++ List.replicate (set.length - target.length) last)).reverse

/-- Replaces or deletes characters. -/
def tr : Utility := fun words => do
  let (letters, sets) := options [] words
  let has (letter : Char) : Bool := letters.contains letter
  let (deletes, squeezes) := (has 'd', has 's')
  let fewest := if deletes == squeezes then 2 else 1
  let most := if deletes && !squeezes then 1 else 2
  let ask (message : String) : Act Nat := do
    complain "tr" s!"{message}\nTry 'tr --help' for more information."
    return 1
  if sets.length < fewest then
    match sets.getLast? with
    | none => ask "missing operand"
    | some last =>
      let reason := if squeezes then "both deleting and squeezing repeats" else "translating"
      ask s!"missing operand after '{String.ofList last}'\nTwo strings must be given when {reason}."
  else if most < sets.length then
    let extra := String.ofList ((sets[most]?).getD [])
    let reason :=
      if sets.length = 2 then
        "\nOnly one string may be given when deleting without squeezing repeats."
      else ""
    ask s!"extra operand '{extra}'{reason}"
  else
    match sets.mapM fun text => setChars (text.length + 1) text with
    | .error message =>
      complain "tr" message
      return 1
    | .ok given =>
      let all := (List.range 256).map Char.ofNat
      let set := given.headD []
      let set := if has 'c' || has 'C' then all.filter fun char => !set.contains char else set
      let second := given[1]?
      if !deletes && second == some [] && !has 't' then
        complain "tr" "when not truncating set1, string2 must be non-empty"
        return 1
      else
        let text ← Act.readAll 0
        let text := if deletes then text.filter fun char => !set.contains char else text
        let text :=
          match deletes, second with
          | false, some target =>
            let table := replacements (if has 't' then set.take target.length else set) target
            text.map fun char => (table.lookup char).getD char
          | _, _ => text
        Act.print (if squeezes then squeezeRuns (second.getD set) text else text)
        return 0
where
  options (letters : Raw) : List Raw → Raw × List Raw
    | ['-', '-'] :: rest => (letters, rest)
    | ('-' :: letter :: more) :: rest =>
      if (letter :: more).all fun char => "dscCt".toList.contains char then
        options (letters ++ letter :: more) rest
      else (letters, ('-' :: letter :: more) :: rest)
    | words => (letters, words)

end PomLens.Script.Utility
