/-
This file defines utilities that tell something about the system or only end with a status.
-/

import PomLens.BuildTool.Script.Builtin.Basic
import PomLens.BuildTool.Script.Program
import PomLens.BuildTool.Script.Utility.Options

namespace PomLens.Script.Utility

/-- Ends with a status whatever it is told. -/
def always (status : Nat) : Utility := fun _ => return status

/-- Waits for some time, which passes at once. -/
def sleep : Utility := fun words => do
  match words with
  | [] =>
    complain "sleep" "missing operand\nTry 'sleep --help' for more information."
    return 1
  | _ =>
    match words.find? fun word => !isInterval word with
    | some word =>
      complain "sleep" s!"invalid time interval '{String.ofList word}'\nTry 'sleep --help' for more information."
      return 1
    | none => return 0
where
  isInterval (word : Raw) : Bool :=
    let body :=
      match word.getLast? with
      | some unit => if "smhd".toList.contains unit then word.dropLast else word
      | none => word
    !body.isEmpty && (body.all fun char => char.isDigit || char == '.') &&
      body.any Char.isDigit && body.count '.' ≤ 1

/-- Runs a built-in command as a program of its own. -/
def ofBuiltin (name : String) (builtin : Builtin) : Utility := fun words => do
  let outer ← get
  modify fun shell => { shell with name := name.toList, command := none }
  let result ← Act.attempt (builtin words)
  let status := (← get).status
  modify fun shell => { shell with name := outer.name, command := outer.command }
  match result with
  | .ok status => return status
  | .error .error => return status
  | .error halt => throw halt

/-- Writes a text. -/
def echo : Utility := fun words => do
  let (letters, words) := options words
  let ending := if letters.contains 'n' then [] else ['\n']
  let text := Raw.join [' '] words
  match letters.reverse.find? fun letter => letter == 'e' || letter == 'E' with
  | some 'e' =>
    let (shown, broken) := unescape (text.length + 1) text
    Act.print (if broken then shown else shown ++ ending)
  | _ => Act.print (text ++ ending)
  return 0
where
  options : List Raw → Raw × List Raw
    | ('-' :: first :: more) :: rest =>
      if (first :: more).all "neE".toList.contains then
        let (letters, words) := options rest
        (first :: more ++ letters, words)
      else ([], ('-' :: first :: more) :: rest)
    | words => ([], words)

/-- Writes the name of the system. -/
def uname : Utility := fun words => do
  let letters := words.flatMap fun word => word.filter (· != '-')
  let parts := [('s', "Linux"), ('n', "localhost"), ('r', "5.15.0"), ('v', "#1 SMP"),
    ('m', "x86_64"), ('p', "x86_64"), ('i', "x86_64"), ('o', "GNU/Linux")]
  let wanted := parts.filter fun (letter, _) =>
    letters.contains letter || (letters.contains 'a' && letter != 'p' && letter != 'i') ||
      (letters.isEmpty && letter == 's')
  Act.print (Raw.join [' '] (wanted.map fun (_, text) => text.toList) ++ ['\n'])
  return 0

/-- Writes a fixed line. -/
def line (text : String) : Utility := fun _ => do
  Act.print (text ++ "\n").toList
  return 0

/-- Writes to which terminal the script is connected. There is none. -/
def tty : Utility := fun _ => do
  Act.print "not a tty\n".toList
  return 1

/-- Writes who runs the script. -/
def id : Utility := fun words => do
  let letters := words.flatMap fun word => word.filter (· != '-')
  let named := letters.contains 'n'
  if letters.contains 'u' || letters.contains 'g' || letters.contains 'G' then
    Act.print (if named then "root\n" else "0\n").toList
  else Act.print "uid=0(root) gid=0(root) groups=0(root)\n".toList
  return 0

/-- Writes where programs are. -/
def which : Utility :=
  withManual ⟨"which", "as", "", [], 2⟩ fun call => do
    let mut complete := !call.operands.isEmpty
    for name in call.operands do
      match ← Act.findProgram name with
      | .ok (path, _) => if !call.has 's' then Act.print (path ++ ['\n'])
      | .error _ => complete := false
    return statusOf complete

/-- The variables that programs see, as they are set. -/
def environment : Act (List (String × Raw)) := do
  return (← get).bindings.reverse.filterMap fun (name, binding) =>
    if binding.exported then binding.value.map fun value => (name, value) else none

/-- Writes variables that programs see. -/
def printenv : Utility := fun words => do
  let bindings ← environment
  if words.isEmpty then
    for (name, value) in bindings do
      Act.print (name.toList ++ '=' :: value ++ ['\n'])
    return 0
  else
    let mut complete := true
    for word in words do
      match bindings.lookup (String.ofList word) with
      | some value => Act.print (value ++ ['\n'])
      | none => complete := false
    return statusOf complete

end PomLens.Script.Utility
