/-
This file runs programs for records.
-/

import PomLens.BuildTool.Script.Utility.Records.Machine

namespace PomLens.Script.Records

open Utility (Invoke)
open Step

/-! ### Functions on texts -/

/-- The characters of a text from a place on, counted from one, and at most so many. -/
def substring (text : Raw) (start : Float) (length : Option Float) : Raw :=
  let whole (value : Float) : Float := if value < 0.0 then value.ceil else value.floor
  let first := whole start
  let count :=
    match length with
    | none => Float.ofNat text.length
    | some length => if first < 0.0 then whole length - first else whole length
  (text.drop (first.toUInt64.toNat - 1)).take count.toUInt64.toNat

/-- The place at which a text stands in another one, counted from one. -/
def placeOf (part : Raw) (place : Nat) : Raw → Nat
  | [] => if part.isEmpty then place else 0
  | char :: rest => if part.isPrefixOf (char :: rest) then place else placeOf part (place + 1) rest

/-- What replaces a match: an ampersand stands for the match. -/
def replacement (matched : Raw) : Raw → Raw
  | '\\' :: '&' :: rest => '&' :: replacement matched rest
  | '\\' :: '\\' :: rest => '\\' :: replacement matched rest
  | '&' :: rest => matched ++ replacement matched rest
  | char :: rest => char :: replacement matched rest
  | [] => []

/-- Replaces the first match or all of them, and counts. An empty match behind another one is
passed over. `fuel` bounds the number of matches. -/
def substituted (regex : Regex) (all : Bool) (template : Raw) (text : Array Char)
    (fuel start : Nat) (behind : Option Nat) : Raw × Nat :=
  match fuel with
  | 0 => (text.toList.drop start, 0)
  | fuel + 1 =>
    match regex.search? text start with
    | none => (text.toList.drop start, 0)
    | some (place, way) =>
      let before := (text.toList.take place).drop start
      let matched := (text.toList.take way.place).drop place
      if matched.isEmpty && behind == some place then
        match text[place]? with
        | none => (before, 0)
        | some char =>
          let (rest, count) := substituted regex all template text fuel (place + 1) none
          (before ++ char :: rest, count)
      else if !all then
        (before ++ replacement matched template ++ text.toList.drop way.place, 1)
      else if matched.isEmpty then
        match text[place]? with
        | none => (before ++ replacement matched template, 1)
        | some char =>
          let (rest, count) := substituted regex all template text fuel (place + 1) none
          (before ++ replacement matched template ++ char :: rest, count + 1)
      else
        let (rest, count) := substituted regex all template text fuel way.place (some way.place)
        (before ++ replacement matched template ++ rest, count + 1)

/-! ### Expressions -/

mutual

/-- The value of an expression. `fuel` bounds the depth. -/
def evaluate (invoke : Invoke) (fuel : Nat) (expr : Expr) : Step Value := do
  match fuel with
  | 0 => fail "awk: program limit exceeded".toList
  | fuel + 1 =>
    match expr with
    | .number value => return .number value
    | .text value => return .text value
    | .pattern text =>
      let record ← toText (← field 0)
      return .ofBool ((← regex text).search? record.toArray 0).isSome
    | .named name => scalar name
    | .field index => do field (← evaluate invoke fuel index).toIndex
    | .item name keys =>
      let key ← keyOf invoke fuel keys
      match (← array name).lookup key with
      | some value => return value
      | none =>
        setItem name key .unset
        return .unset
    | .assign target value =>
      let value ← evaluate invoke fuel value
      assignTo invoke fuel target value
      return value
    | .update operation target value =>
      let right ← evaluate invoke fuel value
      let left ← evaluate invoke fuel target
      let value := Value.number (operation.apply left.toNumber right.toNumber)
      assignTo invoke fuel target value
      return value
    | .step amount isNew target =>
      let old := (← evaluate invoke fuel target).toNumber
      assignTo invoke fuel target (.number (old + amount))
      return .number (if isNew then old + amount else old)
    | .calculate operation left right =>
      let left ← evaluate invoke fuel left
      let right ← evaluate invoke fuel right
      return .number (operation.apply left.toNumber right.toNumber)
    | .opposite inner => return .number (-(← evaluate invoke fuel inner).toNumber)
    | .asNumber inner => return .number (← evaluate invoke fuel inner).toNumber
    | .negated inner => return .ofBool !(← evaluate invoke fuel inner).isTrue
    | .both left right =>
      if (← evaluate invoke fuel left).isTrue then
        return .ofBool (← evaluate invoke fuel right).isTrue
      else return .ofBool false
    | .either left right =>
      if (← evaluate invoke fuel left).isTrue then return .ofBool true
      else return .ofBool (← evaluate invoke fuel right).isTrue
    | .compare relation left right =>
      let left ← evaluate invoke fuel left
      let right ← evaluate invoke fuel right
      return .ofBool (Value.compare (← textOf "CONVFMT") relation left right)
    | .fits text pattern =>
      let text ← toText (← evaluate invoke fuel text)
      let pattern ← patternOf invoke fuel pattern
      return .ofBool ((← regex pattern).search? text.toArray 0).isSome
    | .choice test yes no =>
      if (← evaluate invoke fuel test).isTrue then evaluate invoke fuel yes
      else evaluate invoke fuel no
    | .joined left right =>
      let left ← toText (← evaluate invoke fuel left)
      return .text (left ++ (← toText (← evaluate invoke fuel right)))
    | .contains keys name =>
      let key ← keyOf invoke fuel keys
      return .ofBool ((← array name).lookup key).isSome
    | .grouped inner => evaluate invoke fuel inner
    | .call name arguments => call invoke fuel name arguments
    | .readRecord target source => readRecord invoke fuel target source

/-- The key that several values make up. -/
def keyOf (invoke : Invoke) (fuel : Nat) (keys : List Expr) : Step Raw := do
  match fuel with
  | 0 => return []
  | fuel + 1 =>
    let mut texts := []
    for key in keys do
      texts := texts ++ [← toText (← evaluate invoke fuel key)]
    return Raw.join (← textOf "SUBSEP") texts

/-- The text of a regular expression. -/
def patternOf (invoke : Invoke) (fuel : Nat) (expr : Expr) : Step Raw := do
  match fuel, expr with
  | _, .pattern text => return text
  | 0, _ => return []
  | fuel + 1, expr => do toText (← evaluate invoke fuel expr)

def assignTo (invoke : Invoke) (fuel : Nat) (target : Expr) (value : Value) : Step Unit := do
  match fuel, target with
  | _, .named name => setScalar name value
  | fuel + 1, .field index => do setField (← evaluate invoke fuel index).toIndex value
  | fuel + 1, .item name keys => do setItem name (← keyOf invoke fuel keys) value
  | fuel + 1, .grouped inner => assignTo invoke fuel inner value
  | _, _ => return

/-- Reads a record and says whether there was one. -/
def readRecord (invoke : Invoke) (fuel : Nat) (target : Option Expr)
    (source : Option (Bool × Expr)) : Step Value := do
  match fuel with
  | 0 => return .number (-1.0)
  | fuel + 1 =>
    let take (record : Raw) : Step Value := do
      match target with
      | none => setRecord (.input record)
      | some target => assignTo invoke fuel target (.input record)
      return .number 1.0
    match source with
    | none =>
      match ← nextRecord? ((← machine).operands.length + 2) with
      | none => return .number 0.0
      | some record => take record
    | some (isCommand, name) =>
      let name ← toText (← evaluate invoke fuel name)
      let text? ←
        match (← machine).sources.lookup name with
        | some text => pure (some text)
        | none =>
          if isCommand then
            flush
            some <$> act (outputOf invoke name)
          else
            match ← act (Utility.input name) with
            | .ok text => pure (some text)
            | .error _ => pure none
      match text? with
      | none => return .number (-1.0)
      | some text =>
        let keep (rest : Raw) : Step Unit :=
          change fun machine =>
            { machine with
              sources := (name, rest) :: machine.sources.filter fun (other, _) => other != name }
        match record? (← textOf "RS") text with
        | none =>
          keep []
          return .number 0.0
        | some (record, rest) =>
          keep rest
          if isCommand && target.isNone then
            setScalar "NR" (.number ((← scalar "NR").toNumber + 1.0))
          take record

/-- Calls a function. -/
def call (invoke : Invoke) (fuel : Nat) (name : String) (arguments : List Expr) : Step Value := do
  match fuel with
  | 0 => return .unset
  | fuel + 1 =>
    let text (place : Nat) : Step Raw := do
      match arguments[place]? with
      | some argument => toText (← evaluate invoke fuel argument)
      | none => return []
    let number (place : Nat) : Step Float := do
      match arguments[place]? with
      | some argument => return (← evaluate invoke fuel argument).toNumber
      | none => return 0.0
    match name, arguments with
    | "length", [] => return .ofNat (← toText (← field 0)).length
    | "length", [.named name] =>
      match (← machine).arrays.lookup name with
      | some items => return .ofNat items.length
      | none => return .ofNat (← toText (← scalar name)).length
    | "length", _ => return .ofNat (← text 0).length
    | "substr", _ =>
      let whole ← text 0
      let start ← number 1
      let length ← if arguments.length > 2 then some <$> number 2 else pure none
      return .text (substring whole start length)
    | "index", _ =>
      let whole ← text 0
      return .ofNat (placeOf (← text 1) 1 whole)
    | "toupper", _ => return .text ((← text 0).map Char.toUpper)
    | "tolower", _ => return .text ((← text 0).map Char.toLower)
    | "sprintf", _ =>
      let mut values := []
      for argument in arguments do
        values := values ++ [← evaluate invoke fuel argument]
      return .text (← formatValues "sprintf" values)
    | "split", _ :: .named array :: rest =>
      let whole ← text 0
      let separator ←
        match rest with
        | separator :: _ => patternOf invoke fuel separator
        | [] => textOf "FS"
      let isPattern :=
        match rest with
        | .pattern _ :: _ => true
        | _ => false
      let parts ←
        if isPattern && !whole.isEmpty then
          pure (partsBetween (← regex separator) whole.toArray (whole.length + 2) 0 0)
        else splitFields separator whole
      setArray array ((parts.zipIdx.map fun (part, place) =>
        (Raw.ofNat (place + 1), Value.input part)).reverse)
      return .ofNat parts.length
    | "sub", pattern :: _ :: rest | "gsub", pattern :: _ :: rest =>
      let regex ← regex (← patternOf invoke fuel pattern)
      let template ← text 1
      let target := rest.headD (.field (.number 0.0))
      let whole ← toText (← evaluate invoke fuel target)
      let (changed, count) :=
        substituted regex (name == "gsub") template whole.toArray (2 * whole.length + 2) 0 none
      if 0 < count then assignTo invoke fuel target (.text changed)
      return .ofNat count
    | "match", _ :: pattern :: _ =>
      let whole ← text 0
      let regex ← regex (← patternOf invoke fuel pattern)
      let (start, length) :=
        match regex.search? whole.toArray 0 with
        | some (place, way) => (place + 1, Float.ofNat (way.place - place))
        | none => (0, -1.0)
      setScalar "RSTART" (.ofNat start)
      setScalar "RLENGTH" (.number length)
      return .ofNat start
    | "int", _ =>
      let value ← number 0
      return .number (if value < 0 then value.ceil else value.floor)
    | "sqrt", _ => return .number (← number 0).sqrt
    | "exp", _ => return .number (← number 0).exp
    | "log", _ => return .number (← number 0).log
    | "sin", _ => return .number (← number 0).sin
    | "cos", _ => return .number (← number 0).cos
    | "atan2", _ =>
      let first ← number 0
      return .number (Float.atan2 first (← number 1))
    | "rand", _ => return .number 0.5
    | "srand", _ => return .number 0.0
    | "system", _ =>
      flush
      return .ofNat (← act (runCommand invoke (← text 0)))
    | "fflush", _ =>
      flush
      return .number 0.0
    | "close", _ =>
      let name ← text 0
      let status ← runWaiting invoke (· == name)
      change fun machine =>
        { machine with
          written := machine.written.filter (· != name)
          sources := machine.sources.filter fun (other, _) => other != name }
      return .ofNat status
    | _, _ => fail (s!"awk: line 2: function {name} never defined").toList

/-- The text that a format makes of values. -/
def formatValues (name : String) (values : List Value) : Step Raw := do
  let convert ← textOf "CONVFMT"
  let format := (values.headD .unset).toText convert
  match formatted? (format.length + 1) convert format values.tail with
  | some text => return text
  | none =>
    fail ("awk: run time error: not enough arguments passed to ".toList ++ name.toList ++
      "(\"".toList ++ format ++ "\")".toList)

end

/-! ### Statements -/

/-- More rounds than any loop has that ends. -/
def roundLimit : Nat := 1000000

/-- Takes rounds as long as each says that there is another one. A round may also be left, or
the whole loop. -/
def repeatRounds (bound : Nat) (test : Step Bool) (body behind : Step Unit) : Step Unit := do
  match bound with
  | 0 => return
  | bound + 1 =>
    if ← test then
      match ← attempt body with
      | .ok () | .error .round =>
        behind
        repeatRounds bound test body behind
      | .error .loop => return
      | .error other => throw other

/-- Writes what is printed to where it goes. -/
def deliver (invoke : Invoke) (fuel : Nat) (target : Option Target) (text : Raw) : Step Unit := do
  match target with
  | none => change fun machine => { machine with printed := text :: machine.printed }
  | some (.file append name) => do
    printTo append (← toText (← evaluate invoke fuel name)) text
  | some (.command words) => do
    printFor (← toText (← evaluate invoke fuel words)) text

/-- Runs a statement. `fuel` bounds the depth. -/
def execute (invoke : Invoke) (fuel : Nat) (statement : Statement) : Step Unit := do
  match fuel with
  | 0 => fail "awk: program limit exceeded".toList
  | fuel + 1 =>
    let isTrue (test : Expr) : Step Bool := do return (← evaluate invoke fuel test).isTrue
    match statement with
    | .nothing => return
    | .expression inner =>
      let _ ← evaluate invoke fuel inner
    | .print arguments target =>
      let mut texts := []
      let format ← textOf "OFMT"
      for argument in if arguments.isEmpty then [.field (.number 0.0)] else arguments do
        texts := texts ++ [(← evaluate invoke fuel argument).toText format]
      let line := Raw.join (← textOf "OFS") texts
      deliver invoke fuel target (line ++ (← textOf "ORS"))
    | .printFormat arguments target =>
      let mut values := []
      for argument in arguments do
        values := values ++ [← evaluate invoke fuel argument]
      deliver invoke fuel target (← formatValues "printf" values)
    | .block body =>
      for inner in body do
        execute invoke fuel inner
    | .condition test yes no =>
      if ← isTrue test then execute invoke fuel yes else execute invoke fuel no
    | .loop test body =>
      repeatRounds roundLimit (isTrue test) (execute invoke fuel body) (pure ())
    | .rounds body test =>
      match ← attempt (execute invoke fuel body) with
      | .ok () | .error .round =>
        repeatRounds roundLimit (isTrue test) (execute invoke fuel body) (pure ())
      | .error .loop => return
      | .error other => throw other
    | .counted start test behind body =>
      execute invoke fuel start
      let goesOn := test.elim (pure true) isTrue
      repeatRounds roundLimit goesOn (execute invoke fuel body) (execute invoke fuel behind)
    | .each name array body =>
      let mut isOver := false
      for (key, _) in ← Step.array array do
        if !isOver then
          setScalar name (.input key)
          match ← attempt (execute invoke fuel body) with
          | .ok () | .error .round => pure ()
          | .error .loop => isOver := true
          | .error other => throw other
    | .delete array keys =>
      if keys.isEmpty then setArray array []
      else
        let key ← keyOf invoke fuel keys
        setArray array ((← Step.array array).filter fun (other, _) => other != key)
    | .next => throw .next
    | .exit status =>
      if let some status := status then
        let status := (← evaluate invoke fuel status).toIndex
        change fun machine => { machine with status }
      throw .exit
    | .leave => throw .loop
    | .goOn => throw .round

/-! ### Programs -/

/-- How deep statements and expressions may stand in each other. -/
def depthLimit : Nat := 2000

/-- Runs the rules of one kind that stand before the first or behind the last record. -/
def runRules (invoke : Invoke) (rules : List Rule) (wanted : Selector → Bool) : Step Unit := do
  for rule in rules do
    if wanted rule.selector then execute invoke depthLimit rule.body

/-- A rule holds for the record at hand. -/
def isSelected (invoke : Invoke) (place : Nat) : Selector → Step Bool
  | .start | .finish => return false
  | .every => return true
  | .those test => do return (← evaluate invoke depthLimit test).isTrue
  | .between first last => do
    let isActive := (← machine).active.contains place
    let starts ← if isActive then pure true else do
      pure (← evaluate invoke depthLimit first).isTrue
    if !starts then return false
    else
      let isLast := (← evaluate invoke depthLimit last).isTrue
      change fun machine =>
        let others := machine.active.filter (· != place)
        { machine with active := if isLast then others else place :: others }
      return true

/-- Runs the rules for each record. `fuel` bounds their number. -/
def runRecords (invoke : Invoke) (rules : List Rule) (fuel : Nat) : Step Unit := do
  match fuel with
  | 0 => return
  | fuel + 1 =>
    match ← nextRecord? ((← machine).operands.length + 2) with
    | none => return
    | some record =>
      setRecord (.input record)
      let round : Step Unit := do
        for (rule, place) in rules.zipIdx do
          if ← isSelected invoke place rule.selector then execute invoke depthLimit rule.body
      match ← attempt round with
      | .ok () | .error .next => runRecords invoke rules fuel
      | .error other => throw other

/-- Runs a program. -/
def runProgram (invoke : Invoke) (rules : List Rule) : Step Unit := do
  let isStart : Selector → Bool := fun selector => match selector with
    | .start => true
    | _ => false
  let isFinish : Selector → Bool := fun selector => match selector with
    | .finish => true
    | _ => false
  let reads := rules.any fun rule => !isStart rule.selector
  let main : Step Unit := do
    runRules invoke rules isStart
    if reads then runRecords invoke rules roundLimit
  match ← attempt main with
  | .ok () | .error .exit =>
    match ← attempt (runRules invoke rules isFinish) with
    | .ok () | .error .exit => pure ()
    | .error other => throw other
  | .error other => throw other

/-- The state in which a program starts. -/
def Machine.start (environment : List (String × Raw)) (operands : List Raw) : Machine where
  scalars := [("FS", .text [' ']), ("OFS", .text [' ']), ("ORS", .text ['\n']),
    ("RS", .text ['\n']), ("SUBSEP", .text ['\x1c']), ("CONVFMT", .text "%.6g".toList),
    ("OFMT", .text "%.6g".toList), ("NR", .number 0.0), ("FNR", .number 0.0),
    ("ARGC", .ofNat (operands.length + 1))]
  arrays := [("ENVIRON", environment.map fun (name, value) => (name.toList, .input value)),
    ("ARGV", (("awk".toList :: operands).zipIdx.map fun (word, place) =>
      (Raw.ofNat place, Value.input word)))]
  record := .unset
  fields := []
  current := none
  operands
  isNamed := false
  active := []
  printed := []
  written := []
  commands := []
  sources := []
  status := 0

end PomLens.Script.Records

namespace PomLens.Script.Utility

open Records Records.Step

/-- The options of a call and the words behind them. `fuel` bounds the number of words. -/
def awkCall (fuel : Nat) (words : List Raw) : Except String (List (Char × Raw) × List Raw) :=
  match fuel, words with
  | 0, _ | _, [] => return ([], [])
  | fuel + 1, word :: rest =>
    match word with
    | ['-', '-'] => return ([], rest)
    | '-' :: letter :: more =>
      if "Fvf".toList.contains letter then do
        let (value, rest) := if more.isEmpty then (rest.headD [], rest.tail) else (more, rest)
        let (options, words) ← awkCall fuel rest
        return ((letter, value) :: options, words)
      else throw s!"not an option: {String.ofList word}"
    | _ => return ([], words)

/-- Runs a program for each record of what is read. -/
def awk (invoke : Invoke) : Utility := fun words => do
  let refuse (message : Raw) : Act Nat := do
    Act.printError message
    return 2
  match awkCall (words.length + 1) words with
  | .error message => refuse ("awk: " ++ message).toList
  | .ok (options, words) =>
    let files := (options.filter fun (letter, _) => letter == 'f').map Prod.snd
    let mut parts := []
    let mut missing := none
    for file in files do
      match ← input file with
      | .ok text => parts := parts ++ [text]
      | .error error => missing := missing.or (some (Step.cannotOpen file [] error))
    if let some message := missing then refuse message
    else if files.isEmpty && words.isEmpty then
      refuse "Usage: mawk [Options] [Program] [file ...]".toList
    else
      let program := if files.isEmpty then words.headD [] else Raw.join ['\n'] parts
      let operands := if files.isEmpty then words.tail else words
      match Records.parse program with
      | .error fault => refuse ("awk: " ++ fault.message).toList
      | .ok rules =>
        let prepared : Step Unit := do
          for (letter, value) in options do
            match letter, given? value with
            | 'F', _ =>
              setScalar "FS" (.text (if value = ['t'] then ['\t'] else unescaped value))
            | 'v', some (name, value) => setScalar name (.input (unescaped value))
            | _, _ => pure ()
          runProgram invoke rules
        let (result, machine) ← prepared.run.run (Machine.start (← environment) operands)
        let ending : Step Nat := do
          let _ ← runWaiting invoke fun _ => true
          flush
          return (← Step.machine).status % 256
        let (status, _) ← ending.run.run machine
        match result, status with
        | .ok (), .ok status => return status
        | _, _ => return 2

end PomLens.Script.Utility
