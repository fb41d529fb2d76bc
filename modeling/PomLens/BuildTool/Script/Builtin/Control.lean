/-
This file defines built-in commands that change how a script goes on, and those that deal
with signals and with commands that run beside the script.
-/

import PomLens.BuildTool.Script.Builtin.Basic

namespace PomLens.Script.Builtin

open Act (fail)

/-! ### Ways to go on -/

/-- Ends the script, with a status or with that of the last command. -/
def exit : Builtin := fun words => do
  match words with
  | word :: _ => Act.setStatus (← number word)
  | [] => Act.setStatus ((← get).before.getD (← get).status)
  throw .exiting

/-- Ends the function at hand, with a status or with that of the last command. -/
def «return» : Builtin := fun words => do
  let status ←
    match words with
    | word :: _ => number word
    | [] => pure (← get).status
  Act.setFlow .returning
  return status

/-- Ends loops, or the rounds of loops. -/
def leaveLoops (flow : Nat → Flow) : Builtin := fun words => do
  let levels ←
    match words with
    | word :: _ => do
      let levels ← number word
      if levels = 0 then fail ("Illegal number: ".toList ++ word)
      pure levels
    | [] => pure 1
  let loops := (← get).loops
  if loops > 0 then Act.setFlow (flow (min levels loops))
  return 0

/-! ### Signals -/

/-- Says what is to be run at signals, or prints that. -/
def trap : Builtin := fun words => do
  let (_, words) ← options "" words
  match words with
  | [] =>
    for (signal, action) in (← get).traps.mergeSort fun (first, _) (second, _) =>
        signalNames.idxOf first ≤ signalNames.idxOf second do
      Act.print ("trap -- ".toList ++ inQuotes action ++ ' ' :: signal.toList ++ ['\n'])
    return 0
  | first :: rest =>
    let clears := rest.isEmpty || (signal? first).isSome || first = ['-']
    let signals := if rest.isEmpty || (signal? first).isSome then words else rest
    for word in signals do
      match signal? word with
      | none =>
        Act.printError ("trap: ".toList ++ word ++ ": bad trap".toList)
        return 1
      | some signal =>
        let name := signalName signal
        modify fun shell =>
          let others := shell.traps.filter fun (other, _) => other ≠ name
          { shell with traps := if clears then others else (name, first) :: others }
    return 0

/-- The number of the script's own process, as the script sees it. -/
def ownProcess : Raw := ['1']

/-- The number of the last process beside the script. -/
def otherProcess : Raw := ['2']

/-- Sends a signal. All processes but the script's own have ended. -/
def sendSignal (signal : Nat) (processes : List Raw) : Act Nat := do
  let mut status := 0
  for process in processes do
    if process = ownProcess || process = ['0'] then Act.receive signal
    else if (Raw.nat? process).isSome || process.head? = some '-' then
      Act.complain "No such process\n".toList
      status := 1
    else if process.head? = some '%' then
      fail ("No such job: ".toList ++ process)
    else fail ("Illegal number: ".toList ++ process)
  return status

def kill : Builtin := fun words => do
  let usage : Act Nat :=
    fail ("Usage: kill [-s sigspec | -signum | -sigspec] [pid | job]... or\n" ++
      "kill -l [exitstatus]").toList
  let byName (name : Raw) (processes : List Raw) : Act Nat := do
    match signal? name with
    | none => fail ("invalid signal number or name: ".toList ++ name)
    | some signal => if processes.isEmpty then usage else sendSignal signal processes
  match words with
  | [] => usage
  | ['-', 'l'] :: rest =>
    match rest with
    | [] =>
      for name in "0" :: signalNames.tail do Act.print (name.toList ++ ['\n'])
      return 0
    | word :: _ =>
      let status ← number word
      let signal := if status > 128 then status - 128 else status
      Act.print ((signalName signal).toList ++ ['\n'])
      return 0
  | ['-', 's'] :: name :: processes => byName name processes
  | ['-', '-'] :: processes => if processes.isEmpty then usage else sendSignal 15 processes
  | ('-' :: letter :: more) :: processes =>
    match signal? (letter :: more), letter with
    | some signal, _ => if processes.isEmpty then usage else sendSignal signal processes
    | none, 's' => byName more processes
    | none, _ => fail ("Illegal option -".toList ++ [letter])
  | processes => sendSignal 15 processes

/-! ### Commands beside the script -/

/-- Waits for commands that run beside the script. They have all ended. -/
def wait : Builtin := fun words => do
  let aside := (← get).aside
  match words.getLast? with
  | none => return 0
  | some process => return if process = otherProcess then aside.getD 127 else 127

def noJob : Builtin := fun _ => fail "No current job".toList

/-! ### Other state of the process -/

/-- The digits of a mask: one for the owner, one for the group and one for others. -/
def maskText (mask : Nat) : Raw :=
  let digits := Nat.toDigits 8 mask
  List.replicate (4 - digits.length) '0' ++ digits

/-- The letters for what a mask leaves to the owner, the group and others. -/
def maskLetters (mask : Nat) : Raw :=
  let letters (bits : Nat) : Raw :=
    (['r', 'w', 'x'].zip [4, 2, 1]).filterMap fun (letter, bit) =>
      if bits &&& bit = 0 then some letter else none
  "u=".toList ++ letters (mask >>> 6) ++ ",g=".toList ++ letters (mask >>> 3) ++
    ",o=".toList ++ letters mask

/-- A mask changed by a clause: for whom, a sign, and what. -/
def changedMask? (mask : Nat) (clause : Raw) : Option Nat :=
  let who := clause.takeWhile fun char => "ugoa".toList.contains char
  let whom :=
    if who.isEmpty || who.contains 'a' then 0o777
    else
      (if who.contains 'u' then 0o700 else 0) + (if who.contains 'g' then 0o070 else 0) +
        (if who.contains 'o' then 0o007 else 0)
  match clause.drop who.length with
  | sign :: letters =>
    if !(letters.all fun char => "rwx".toList.contains char) then none
    else
      let bits := (if letters.contains 'r' then 0o444 else 0) +
        (if letters.contains 'w' then 0o222 else 0) + (if letters.contains 'x' then 0o111 else 0)
      let left := 0o777 - mask
      let meant := bits &&& whom
      match sign with
      | '+' => some (0o777 - (left ||| meant))
      | '-' => some (0o777 - (left &&& (0o777 - meant)))
      | '=' => some (0o777 - ((left &&& (0o777 - whom)) ||| meant))
      | _ => none
  | [] => none

/-- Shows or changes what files that are made may not be used for. -/
def umask : Builtin := fun words => do
  let (letters, words) ← options "S" words
  let mask := (← get).mask
  match words with
  | [] =>
    Act.print ((if letters.isEmpty then maskText mask else maskLetters mask) ++ ['\n'])
    return 0
  | mode :: _ =>
    let changed ←
      if mode.head?.any Char.isDigit then
        if mode.all fun digit => '0' ≤ digit && digit ≤ '7' then
          pure (mode.foldl (fun value digit => 8 * value + (digit.toNat - 48)) 0 % 512)
        else fail ("Illegal number: ".toList ++ mode)
      else
        match (Text.splitOn (· == ',') mode).foldlM changedMask? mask with
        | some changed => pure changed
        | none => fail ("Illegal mode: ".toList ++ mode)
    modify fun shell => { shell with mask := changed }
    return 0

def times : Builtin := fun _ => do
  Act.print "0m0.000000s 0m0.000000s\n0m0.000000s 0m0.000000s\n".toList
  return 0

def ulimit : Builtin := fun words => do
  let isLimit (word : Raw) : Bool := word.all Char.isDigit || word = "unlimited".toList
  if words.any fun word => word.head? != some '-' && !isLimit word then
    fail "bad number".toList
  if words.all fun word => word.head? = some '-' then Act.print "unlimited\n".toList
  return 0

/-- The place of a name in the order in which names that stand for texts are listed. -/
def aliasPlace (name : String) : Nat :=
  let codes := (Raw.ofString name).map Char.toNat
  (16 * codes.headD 0 + codes.foldl (· + ·) 0) % 39

/-- Lets names stand for texts where a command may start, or shows that. -/
def aliases : Builtin := fun words => do
  let line (name : String) (value : Raw) : Act Unit :=
    Act.print (Raw.ofString name ++ '=' :: inQuotes value ++ ['\n'])
  if words.isEmpty then
    for (name, value) in (← get).aliases.mergeSort fun left right =>
        aliasPlace left.1 ≤ aliasPlace right.1 do
      line name value
    return 0
  else
    let mut status := 0
    for word in words do
      let (first, value) := nameAndValue word
      let name := String.ofList first
      match value, (← get).aliases.lookup name with
      | some value, some _ =>
        modify fun shell =>
          { shell with
            aliases := shell.aliases.map fun (other, old) =>
              (other, if other = name then value else old) }
      | some value, none =>
        modify fun shell => { shell with aliases := shell.aliases ++ [(name, value)] }
      | none, some value => line name value
      | none, none =>
        Act.printError ("alias: ".toList ++ word ++ " not found".toList)
        status := 1
    return status

/-- Takes back that names stand for texts. -/
def unalias : Builtin := fun words => do
  let (letters, words) ← options "a" words
  if !letters.isEmpty then
    modify fun shell => { shell with aliases := [] }
    return 0
  else
    let mut status := 0
    for word in words do
      let name := String.ofList word
      if ((← get).aliases.lookup name).isNone then
        Act.printError ("unalias: ".toList ++ word ++ " not found".toList)
        status := 1
      modify fun shell =>
        { shell with aliases := shell.aliases.filter fun (other, _) => other != name }
    return status

end PomLens.Script.Builtin
