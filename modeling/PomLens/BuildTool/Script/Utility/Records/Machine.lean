/-
This file defines the state of a running program for records: its variables, the record at
hand with its fields, and what it reads and writes.
-/

import PomLens.BuildTool.Script.Regex
import PomLens.BuildTool.Script.Utility.Nested
import PomLens.BuildTool.Script.Utility.Records.Reader

namespace PomLens.Script.Records

open Utility (Invoke)

/-! ### State -/

structure Machine where
  scalars : List (String × Value)
  arrays : List (String × List (Raw × Value))
  record : Value
  fields : List Value
  /-- What is left of the input at hand, if one is open. -/
  current : Option Raw
  /-- The words of the call that name further inputs or set variables. -/
  operands : List Raw
  /-- Some input was named. -/
  isNamed : Bool
  /-- The rules that hold from a first record on and have not come to their last one. -/
  active : List Nat
  /-- What was printed and not yet passed on, the latest first. -/
  printed : List Raw
  /-- The files that were opened for writing. -/
  written : List Raw
  /-- What was printed for commands that have not run yet. -/
  commands : List (Raw × Raw)
  /-- What is left of files and commands that are read besides the input. -/
  sources : List (Raw × Raw)
  /-- The status with which the program ends. -/
  status : Nat

/-- Why the statements at hand are left. -/
inductive Leave
  | next
  | exit
  | loop
  | round
  /-- There was an error. -/
  | failure
  deriving DecidableEq, Repr

/-- A step of a running program. -/
abbrev Step := ExceptT Leave (StateT Machine Act)

namespace Step

def machine : Step Machine :=
  getThe Machine

def change (change : Machine → Machine) : Step Unit :=
  modifyThe Machine change

/-- Takes a step of the script around the program. -/
def act {α : Type} (action : Act α) : Step α :=
  liftM action

/-- Takes a step, and says whether and why it was left. -/
def attempt {α : Type} (step : Step α) : Step (Except Leave α) :=
  ExceptT.lift step.run

/-- Ends the program because of an error. -/
def fail {α : Type} (message : Raw) : Step α := do
  act (Act.printError message)
  throw .failure

/-- Passes on what was printed. -/
def flush : Step Unit := do
  let printed := (← machine).printed.reverse.flatten
  change fun machine => { machine with printed := [] }
  if !printed.isEmpty then act (Act.print printed)

/-! ### Variables -/

def scalar (name : String) : Step Value := do
  let machine ← machine
  if name = "NF" then return .ofNat machine.fields.length
  else return (machine.scalars.lookup name).getD .unset

/-- The text of a variable. -/
def textOf (name : String) : Step Raw := do
  return (← scalar name).toText "%.6g".toList

/-- The text of a value. -/
def toText (value : Value) : Step Raw := do
  return value.toText (← textOf "CONVFMT")

/-- The record that its fields make up. -/
def joinFields : Step Unit := do
  let separator ← textOf "OFS"
  let mut texts := []
  for field in (← machine).fields do
    texts := texts ++ [← toText field]
  change fun machine => { machine with record := .text (Raw.join separator texts) }

/-- Replaces a variable. The number of fields can be changed so. -/
def setScalar (name : String) (value : Value) : Step Unit := do
  if name = "NF" then
    let count := value.toIndex
    change fun machine =>
      let missing := count - machine.fields.length
      { machine with fields := (machine.fields ++ List.replicate missing (Value.text [])).take count }
    joinFields
  else
    change fun machine =>
      let others := machine.scalars.filter fun (other, _) => other != name
      { machine with scalars := (name, value) :: others }

def array (name : String) : Step (List (Raw × Value)) := do
  return ((← machine).arrays.lookup name).getD []

def setArray (name : String) (items : List (Raw × Value)) : Step Unit :=
  change fun machine =>
    let others := machine.arrays.filter fun (other, _) => other != name
    { machine with arrays := (name, items) :: others }

/-- Replaces an item of an array, or adds it in front. -/
def setItem (name : String) (key : Raw) (value : Value) : Step Unit := do
  let items ← array name
  if (items.lookup key).isSome then
    setArray name (items.map fun (other, old) => if other = key then (other, value) else (other, old))
  else setArray name ((key, value) :: items)

/-! ### Fields -/

/-- Reads a regular expression. -/
def regex (text : Raw) : Step Regex := do
  match Regex.parse ⟨true, false, true⟩ text with
  | .ok regex => return regex
  | .error message => fail ("awk: regular expression compile failed (".toList ++ message.toList ++
      ")\n".toList ++ text)

/-- The parts of a text between matches that are not empty. `fuel` bounds their number. -/
def partsBetween (regex : Regex) (text : Array Char) (fuel start origin : Nat) : List Raw :=
  match fuel with
  | 0 => []
  | fuel + 1 =>
    match regex.search? text origin with
    | none => [text.toList.drop start]
    | some (place, way) =>
      if way.place = place then
        if text.size ≤ place then [text.toList.drop start]
        else partsBetween regex text fuel start (place + 1)
      else
        (text.toList.take place).drop start ::
          partsBetween regex text fuel way.place way.place

/-- The fields of a text, given what separates them: blanks, any character, one character, or
what matches a regular expression. -/
def splitFields (separator text : Raw) : Step (List Raw) := do
  if text.isEmpty then return []
  else
    match separator with
    | [' '] => return (Text.splitOn isSpace text).filter fun word => !word.isEmpty
    | [] => return text.map fun char => [char]
    | [char] => return Text.splitOn (· == char) text
    | _ => return partsBetween (← regex separator) text.toArray (text.length + 2) 0 0

/-- Makes a text the record at hand. -/
def setRecord (value : Value) : Step Unit := do
  let text ← toText value
  let separator ← textOf "FS"
  let parts ←
    if (← textOf "RS").isEmpty && separator != [' '] then do
      let mut parts := []
      for line in Text.splitOn (· == '\n') text do
        parts := parts ++ (← splitFields separator line)
      pure parts
    else splitFields separator text
  change fun machine => { machine with record := value, fields := parts.map Value.input }

def field (index : Nat) : Step Value := do
  let machine ← machine
  if index = 0 then return machine.record else return (machine.fields[index - 1]?).getD .unset

/-- Replaces a field. Empty ones are added in front of it if there are too few. -/
def setField (index : Nat) (value : Value) : Step Unit := do
  if index = 0 then setRecord value
  else
    change fun machine =>
      let missing := index - machine.fields.length
      let fields := machine.fields ++ List.replicate missing (Value.text [])
      { machine with fields := fields.set (index - 1) value }
    joinFields

/-! ### Reading -/

/-- The first record of a text, and what follows it. -/
def record? (separator text : Raw) : Option (Raw × Raw) :=
  if text.isEmpty then none
  else
    match separator with
    | [] =>
      let body := text.dropWhile (· == '\n')
      if body.isEmpty then none
      else
        let (record, rest) := paragraph body
        some (record, rest.dropWhile (· == '\n'))
    | char :: _ =>
      let record := text.takeWhile (· != char)
      some (record, text.drop (record.length + 1))
where
  /-- The text up to the first empty line. -/
  paragraph : Raw → Raw × Raw
    | ['\n'] => ([], [])
    | '\n' :: '\n' :: rest => ([], rest)
    | char :: rest =>
      let (record, after) := paragraph rest
      (char :: record, after)
    | [] => ([], [])

/-- A variable with its value, as a word of the call sets it. -/
def given? (word : Raw) : Option (String × Raw) :=
  let name := word.takeWhile (· != '=')
  if name.length < word.length && isName name then
    some (String.ofList name, word.drop (name.length + 1))
  else none

/-- A text in which escapes stand for characters. -/
def unescaped (text : Raw) : Raw :=
  ((quotedRest? (text.filter (· != '\n') ++ ['"'])).map Prod.fst).getD text

/-- The complaint about a file that cannot be opened for some purpose. -/
def cannotOpen (file purpose : Raw) (error : FileError) : Raw :=
  "awk: cannot open \"".toList ++ file ++ ['"'] ++ purpose ++ " (".toList ++ Act.reason error ++ [')']

/-- Opens the next input, if there is one. `fuel` bounds the number of words. -/
def openNext (fuel : Nat) : Step Bool := do
  match fuel, (← machine).operands with
  | 0, _ => return false
  | _, [] =>
    if (← machine).isNamed then return false
    else
      let text ← act (Act.readAll 0)
      change fun machine => { machine with current := some text, isNamed := true }
      return true
  | fuel + 1, word :: rest =>
    change fun machine => { machine with operands := rest }
    match given? word with
    | some (name, value) =>
      setScalar name (.input (unescaped value))
      openNext fuel
    | none =>
      if word.isEmpty then openNext fuel
      else
        match ← act (Utility.input word) with
        | .ok text =>
          change fun machine => { machine with current := some text, isNamed := true }
          setScalar "FILENAME" (.text word)
          setScalar "FNR" (.ofNat 0)
          return true
        | .error error =>
          fail (cannotOpen word [] error)

/-- The next record of the input. `fuel` bounds the number of inputs. -/
def nextRecord? (fuel : Nat) : Step (Option Raw) := do
  match fuel with
  | 0 => return none
  | fuel + 1 =>
    match ((← machine).current).bind (record? (← textOf "RS")) with
    | some (record, rest) =>
      change fun machine => { machine with current := some rest }
      for name in ["NR", "FNR"] do
        setScalar name (.number ((← scalar name).toNumber + 1.0))
      return some record
    | none =>
      change fun machine => { machine with current := none }
      if ← openNext ((← machine).operands.length + 1) then nextRecord? fuel else return none

/-! ### Commands -/

/-- Runs a command and gives its status. -/
def runCommand (invoke : Invoke) (command : Raw) : Act Nat := do
  match ← invoke ["sh".toList, "-c".toList, command] with
  | .ok status => return status
  | .error error => return failureStatus error

/-- Runs a command that reads a text. -/
def feed (invoke : Invoke) (command text : Raw) : Act Nat := do
  let channels := (← get).channels
  Act.setChannel 0 (some (← Act.addStream (.source text none)))
  let status ← runCommand invoke command
  modify fun shell => { shell with channels }
  return status

/-- What a command prints. -/
def outputOf (invoke : Invoke) (command : Raw) : Act Raw := do
  let channels := (← get).channels
  let place ← Act.addStream (.collected [])
  Act.setChannel 1 (some place)
  let _ ← runCommand invoke command
  modify fun shell => { shell with channels }
  Act.collected place

/-- Runs a command for which something was printed, or all of them. -/
def runWaiting (invoke : Invoke) (wanted : Raw → Bool) : Step Nat := do
  let mut status := 0
  for (command, text) in (← machine).commands do
    if wanted command then status ← act (feed invoke command text)
  change fun machine =>
    { machine with commands := machine.commands.filter fun (command, _) => !wanted command }
  return status

/-- Prints a text to a file. The first time, what the file held is lost. -/
def printTo (append : Bool) (file text : Raw) : Step Unit := do
  match device? file with
  | some (.channel 1) => change fun machine => { machine with printed := text :: machine.printed }
  | _ =>
    let isOpen := (← machine).written.contains file
    match ← act (Utility.output file text (append || isOpen)) with
    | none =>
      if !isOpen then change fun machine => { machine with written := file :: machine.written }
    | some error =>
      fail (cannotOpen file " for output".toList error)

/-- Prints a text for a command. -/
def printFor (command text : Raw) : Step Unit := do
  if ((← machine).commands.lookup command).isNone then
    flush
    change fun machine => { machine with commands := machine.commands ++ [(command, [])] }
  change fun machine =>
    { machine with
      commands := machine.commands.map fun (other, old) =>
        if other = command then (other, old ++ text) else (other, old) }

end Step

end PomLens.Script.Records
