/-
This file defines utilities that run other programs.
-/

import PomLens.BuildTool.Script.Utility.Lines
import PomLens.BuildTool.Script.Utility.Plain

namespace PomLens.Script.Utility

/-- How a program is run, by its name and arguments: gives its status, or says why it cannot
be run. -/
abbrev Invoke := List Raw → Act (Except FileError Nat)

/-- Runs a program, and complains if that is not possible. -/
def invokeOr (invoke : Invoke) (complaint : Raw → Raw) (words : List Raw) : Act Nat := do
  match ← invoke words with
  | .ok status => return status
  | .error error =>
    Act.printError (complaint (words.headD []) ++ ": ".toList ++ Act.reason error)
    return failureStatus error

/-- A name in quotes behind the name of a utility. -/
def quotedFor (utility : String) (name : Raw) : Raw :=
  (utility ++ ": '").toList ++ name ++ ['\'']

/-- A name in quotes behind a complaint that the program cannot be run. -/
def failedFor (utility : String) (name : Raw) : Raw :=
  (utility ++ ": failed to run command '").toList ++ name ++ ['\'']

/-- Changes the variables that programs see, as words in front of a program say, and gives
the words behind them. `fuel` bounds the number of words. -/
def changeEnvironment (fuel : Nat) (words : List Raw) : Act (Except Nat (List Raw)) := do
  match fuel, words with
  | 0, _ | _, [] => return .ok []
  | fuel + 1, word :: rest =>
    match word with
    | ['-', '-'] => changeEnvironment fuel rest
    | ['-'] | ['-', 'i'] =>
      modify fun shell =>
        { shell with bindings := shell.bindings.filter fun (_, binding) => !binding.exported }
      changeEnvironment fuel rest
    | '-' :: 'u' :: name =>
      let (name, rest) := if name.isEmpty then (rest.headD [], rest.tail) else (name, rest)
      Act.bind (String.ofList name) none
      changeEnvironment fuel rest
    | '-' :: letter :: _ =>
      complain "env" s!"invalid option -- '{letter}'\nTry 'env --help' for more information."
      return .error 125
    | _ =>
      let (name, value) := Builtin.nameAndValue word
      match value with
      | some value =>
        Act.bind (String.ofList name) (some ⟨some value, true, false⟩)
        changeEnvironment fuel rest
      | none => return .ok (word :: rest)

/-- Runs a program that sees other variables, or writes the variables. -/
def env (invoke : Invoke) : Utility := fun words => do
  let bindings := (← get).bindings
  let status ←
    match ← changeEnvironment (words.length + 1) words with
    | .error status => pure status
    | .ok [] => printenv []
    | .ok words => invokeOr invoke (quotedFor "env") words
  modify fun shell => { shell with bindings }
  return status

def nohup (invoke : Invoke) : Utility := fun words => do
  if words.isEmpty then
    complain "nohup" "missing operand\nTry 'nohup --help' for more information."
    return 125
  else invokeOr invoke (failedFor "nohup") words

/-- Runs a program at another priority, which makes no difference. -/
def nice (invoke : Invoke) : Utility := fun words => do
  match words with
  | [] =>
    Act.print "0\n".toList
    return 0
  | ['-', 'n'] :: _ :: rest => invokeOr invoke (quotedFor "nice") rest
  | ('-' :: _) :: rest => invokeOr invoke (quotedFor "nice") rest
  | _ => invokeOr invoke (quotedFor "nice") words

/-- Runs a program for some time at most. Programs take no time. -/
def timeout (invoke : Invoke) : Utility := fun words => do
  let rec behindOptions : List Raw → List Raw
    | ['-', 'k'] :: _ :: rest | ['-', 's'] :: _ :: rest => behindOptions rest
    | ('-' :: _) :: rest => behindOptions rest
    | words => words
  match behindOptions words with
  | _ :: first :: rest => invokeOr invoke (failedFor "timeout") (first :: rest)
  | _ =>
    complain "timeout" "missing operand\nTry 'timeout --help' for more information."
    return 125

/-! ### Words from the standard input -/

/-- The words of a text, with quotes and backslashes, or the quote that has no end on its line.
The word at hand is given with its latest character first, if there is one. -/
def quotedWords (separates : Char → Bool) (word : Option Raw) (quote : Option Char) :
    Raw → Except Char (List Raw)
  | [] =>
    match quote with
    | some mark => throw mark
    | none => return (word.map List.reverse).toList
  | char :: rest =>
    match quote with
    | some mark =>
      if char = mark then quotedWords separates word none rest
      else if char = '\n' then throw mark
      else quotedWords separates (some (char :: word.getD [])) quote rest
    | none =>
      if char = '\'' || char = '"' then
        quotedWords separates (some (word.getD [])) (some char) rest
      else if char = '\\' then
        match rest with
        | next :: rest => quotedWords separates (some (next :: word.getD [])) none rest
        | [] => return (word.map List.reverse).toList
      else if separates char then do
        return (word.map List.reverse).toList ++ (← quotedWords separates none none rest)
      else quotedWords separates (some (char :: word.getD [])) none rest

/-- Some words at a time. `fuel` bounds their number. -/
def chunks (fuel size : Nat) (words : List Raw) : List (List Raw) :=
  match fuel, words with
  | 0, _ | _, [] => []
  | fuel + 1, words => words.take size :: chunks fuel size (words.drop size)

/-- A word in which each occurrence of a mark is replaced. -/
def replaced (mark value : Raw) (fuel : Nat) (word : Raw) : Raw :=
  match fuel, word with
  | 0, _ | _, [] => word
  | fuel + 1, char :: rest =>
    if !mark.isEmpty && mark.isPrefixOf word then
      value ++ replaced mark value fuel (word.drop mark.length)
    else char :: replaced mark value fuel rest

/-- The options in front of a program's name, and the words from the name on. -/
def xargsCall (fuel : Nat) (words : List Raw) : Except String (List (Char × Raw) × List Raw) :=
  match fuel, words with
  | 0, _ | _, [] => return ([], [])
  | fuel + 1, word :: rest =>
    match word with
    | ['-', '-'] => return ([], rest)
    | '-' :: '-' :: long =>
      if long = "null".toList then do
        let (options, words) ← xargsCall fuel rest
        return (('0', []) :: options, words)
      else if long = "no-run-if-empty".toList then do
        let (options, words) ← xargsCall fuel rest
        return (('r', []) :: options, words)
      else throw s!"unrecognized option '--{String.ofList long}'"
    | '-' :: first :: more => do
      let manual : Manual := ⟨"xargs", "0rtxpo", "nILPdsEa", [], 1⟩
      let (options, rest) ← manual.readLetters (first :: more) rest
      let (others, words) ← xargsCall fuel rest
      return (options ++ others, words)
    | _ => return ([], words)

/-- Runs a program with the words that it reads. -/
def xargs (invoke : Invoke) : Utility := fun words => do
  match xargsCall (words.length + 1) words with
  | .error message =>
    complain "xargs" message
    return 1
  | .ok (options, command) =>
    let call : Call := ⟨options, []⟩
    let command := if command.isEmpty then ["echo".toList] else command
    let text ← Act.readAll 0
    let pieces (separator : Char) : List Raw :=
      let parts := Text.splitOn (· == separator) text
      if parts.getLast? = some [] then parts.dropLast else parts
    let found : Except Char (List Raw) :=
      if call.has '0' then return pieces '\x00'
      else
        match call.value? 'd', call.value? 'I' with
        | some separator, _ =>
          return pieces (if separator = "\\n".toList then '\n'
            else if separator = "\\0".toList then '\x00'
            else separator.headD '\n')
        | none, some _ =>
          let lines := (Raw.lines text).map fun line => line.dropWhile isSpace
          (lines.filter fun line => !line.isEmpty).mapM fun line =>
            List.flatten <$> quotedWords (fun _ => false) none none line
        | none, none => quotedWords isSpace none none text
    let (found, unmatched) :=
      match found with
      | .ok found => (found, none)
      | .error mark => ([], some mark)
    if let some mark := unmatched then
      let kind := if mark = '"' then "double" else "single"
      complain "xargs"
        s!"unmatched {kind} quote; by default quotes are special to xargs unless you use the -0 option"
      return 1
    let runs : List (List Raw) :=
      match call.value? 'I' with
      | some mark => found.map fun value =>
        command.map fun word => replaced mark value (word.length + 1) word
      | none =>
        let size := ((call.value? 'n').bind Raw.nat?).getD ((call.value? 'L').bind Raw.nat? |>.getD (found.length + 1))
        let groups := chunks (found.length + 1) (max 1 size) found
        let groups := if groups.isEmpty && !call.has 'r' then [[]] else groups
        groups.map fun group => command ++ group
    let mut status := 0
    let place ← Act.addStream .nothing
    let channels := (← get).channels
    Act.setChannel 0 (some place)
    for run in runs do
      if status ≠ 126 && status ≠ 127 && status ≠ 124 then
        if call.has 't' then Act.printError (Raw.join [' '] run)
        match ← invoke run with
        | .error error =>
          Act.printError ("xargs: ".toList ++ run.headD [] ++ ": ".toList ++ Act.reason error)
          status := failureStatus error
        | .ok 0 => pure ()
        | .ok 255 =>
          Act.printError ("xargs: ".toList ++ run.headD [] ++
            ": exited with status 255; aborting".toList)
          status := 124
        | .ok _ => status := 123
    modify fun shell => { shell with channels }
    return status

end PomLens.Script.Utility
