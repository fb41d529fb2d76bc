/-
This file reads the options of utilities: the small programs that scripts call.

Options may stand anywhere among the operands. An option is a letter behind a dash, several
letters may share one dash, and a letter that takes a value has it right behind it or in the
next word. Options also have long names. Two dashes end the options.
-/

import PomLens.BuildTool.Script.System

namespace PomLens.Script

/-- A utility runs with the words of its call and gives its status. -/
abbrev Utility := List Raw → Act Nat

namespace Utility

/-- Which options a utility has. -/
structure Manual where
  name : String
  /-- The letters of options without a value. -/
  flags : String
  /-- The letters of options with a value. -/
  valued : String
  /-- Long names for letters. -/
  long : List (String × Char)
  /-- The status at an option that the utility does not have. -/
  refusal : Nat

/-- The options and operands of a call. -/
structure Call where
  /-- Options by their letters in their order. An option without a value has an empty one. -/
  options : List (Char × Raw)
  operands : List Raw

namespace Call

def has (call : Call) (letter : Char) : Bool :=
  call.options.any fun (other, _) => other == letter

/-- The value that an option was given last. -/
def value? (call : Call) (letter : Char) : Option Raw :=
  (call.options.reverse.find? fun (other, _) => other == letter).map Prod.snd

def values (call : Call) (letter : Char) : List Raw :=
  (call.options.filter fun (other, _) => other == letter).map Prod.snd

/-- Which of some options was given last. -/
def last? (call : Call) (letters : String) : Option Char :=
  (call.options.reverse.find? fun (other, _) => letters.toList.contains other).map Prod.fst

def withOption (call : Call) (letter : Char) (value : Raw) : Call :=
  { call with options := (letter, value) :: call.options }

def withOperand (call : Call) (operand : Raw) : Call :=
  { call with operands := operand :: call.operands }

end Call

namespace Manual

/-- The line that ends every complaint about options. -/
def advice (manual : Manual) : String :=
  s!"\nTry '{manual.name} --help' for more information."

/-- Reads the letters behind one dash, given the words that follow. What is left of these
words is given too. -/
def readLetters (manual : Manual) (letters : Raw) (rest : List Raw) :
    Except String (List (Char × Raw) × List Raw) :=
  match letters with
  | [] => return ([], rest)
  | letter :: more =>
    if manual.flags.toList.contains letter then do
      let (options, rest) ← readLetters manual more rest
      return ((letter, []) :: options, rest)
    else if manual.valued.toList.contains letter then
      match more, rest with
      | _ :: _, _ => return ([(letter, more)], rest)
      | [], value :: rest => return ([(letter, value)], rest)
      | [], [] => throw s!"option requires an argument -- '{letter}'{manual.advice}"
    else throw s!"invalid option -- '{letter}'{manual.advice}"

/-- Reads an option by its long name. -/
def readLong (manual : Manual) (word : Raw) (rest : List Raw) :
    Except String ((Char × Raw) × List Raw) :=
  let name := String.ofList (word.takeWhile (· != '='))
  let value := word.drop (name.length + 1)
  match manual.long.lookup name with
  | none => throw s!"unrecognized option '--{String.ofList word}'{manual.advice}"
  | some letter =>
    if manual.valued.toList.contains letter && name.length = word.length then
      match rest with
      | value :: rest => return ((letter, value), rest)
      | [] => throw s!"option '--{name}' requires an argument{manual.advice}"
    else return ((letter, value), rest)

/-- Reads the words of a call. `fuel` bounds their number. -/
def readCall (manual : Manual) (fuel : Nat) (words : List Raw) : Except String Call :=
  match fuel, words with
  | 0, _ | _, [] => return ⟨[], []⟩
  | fuel + 1, word :: rest =>
    match word with
    | ['-', '-'] => return ⟨[], rest⟩
    | '-' :: '-' :: long => do
      let ((letter, value), rest) ← manual.readLong long rest
      return (← readCall manual fuel rest).withOption letter value
    | '-' :: first :: more => do
      let (options, rest) ← manual.readLetters (first :: more) rest
      let call ← readCall manual fuel rest
      return { call with options := options ++ call.options }
    | _ => do return (← readCall manual fuel rest).withOperand word

end Manual

/-! ### Running -/

/-- Complains in the name of a utility. -/
def complain (name message : String) : Act Unit :=
  Act.printError (s!"{name}: {message}").toList

/-- Complains about a file. -/
def complainOf (name : String) (file message : Raw) : Act Unit :=
  Act.printError (name.toList ++ ": ".toList ++ file ++ ": ".toList ++ message)

/-- A utility whose call is read by its manual. -/
def withManual (manual : Manual) (run : Call → Act Nat) : Utility := fun words => do
  match manual.readCall (words.length + 1) words with
  | .error message =>
    complain manual.name message
    return manual.refusal
  | .ok call => run call

/-- What a utility reads under a name: the standard input for a dash, else a file. -/
def input (file : Raw) : Act (Except FileError Raw) := do
  match if file = ['-'] then some (.channel 0) else device? file with
  | some (.channel number) => return .ok (← Act.readAll number)
  | some .nothing => return .ok []
  | none => Act.readFile file

/-- What a utility reads under some names, each with its content. Without a name it reads the
standard input. What cannot be read is complained about and left out; says whether all could
be read. -/
def inputs (name : String) (files : List Raw) : Act (List (Raw × Raw) × Bool) := do
  let mut read := []
  let mut complete := true
  for file in if files.isEmpty then [['-']] else files do
    match ← input file with
    | .ok content => read := (file, content) :: read
    | .error error =>
      complainOf name file (Act.reason error)
      complete := false
  return (read.reverse, complete)

/-- The status of a utility that did all that was asked, or not. -/
def statusOf (complete : Bool) : Nat :=
  if complete then 0 else 1

/-- Writes a file, or to one of the channels that have names. Says why it is not possible. -/
def output (file content : Raw) (append : Bool) : Act (Option FileError) := do
  match device? file with
  | some .nothing => return none
  | some (.channel number) =>
    let _ ← Act.write number content
    return none
  | none =>
    match ← Act.locatePlace file with
    | .error error => return some error
    | .ok location =>
      match (← get).files.at? location with
      | some .folder => return some .isAFolder
      | entry =>
        let old := if append then (entry.map Act.contentOf).getD [] else []
        Act.putFile location (old ++ content)
        return none

end Utility

end PomLens.Script
