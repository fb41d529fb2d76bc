/-
This file defines what the commands are that are built into the shell, and those among them
that write a text or test a condition.

A built-in command gets the words behind its name and gives a status. One that is called
wrongly complains and stops with an error.
-/

import PomLens.BuildTool.Script.Condition
import PomLens.BuildTool.Script.Format
import PomLens.BuildTool.Script.System
import PomLens.BuildTool.Script.Word

namespace PomLens.Script

/-- A built-in command: what it does with the words behind its name, and its status. -/
abbrev Builtin := List Raw → Act Nat

namespace Builtin

open Act (fail)

/-! ### Words of a call -/

/-- The number that a word is. -/
def number (word : Raw) : Act Nat := do
  match Raw.nat? word with
  | some number => return number
  | none => fail ("Illegal number: ".toList ++ word)

/-- The letters of the options in front of some words, and the words behind them. -/
def options (allowed : String) : List Raw → Act (List Char × List Raw)
  | ['-', '-'] :: rest => return ([], rest)
  | ('-' :: first :: more) :: rest => do
    match (first :: more).find? fun letter => !allowed.toList.contains letter with
    | some letter => fail ("Illegal option -".toList ++ [letter])
    | none =>
      let (letters, words) ← options allowed rest
      return (first :: more ++ letters, words)
  | words => return ([], words)

/-- A text in single quotes, as a script would write it. Single quotes of its own are in double
quotes. -/
def inQuotes (text : Raw) : Raw :=
  let parts := text.splitBy fun left right => (left = '\'') == (right = '\'')
  let front := match text with | [] | '\'' :: _ => ['\'', '\''] | _ => []
  front ++ parts.flatMap fun part =>
    let mark := if part.head? = some '\'' then '"' else '\''
    mark :: part ++ [mark]

/-- The name in front of an equals sign, and the value behind it if there is one. -/
def nameAndValue (word : Raw) : Raw × Option Raw :=
  let name := word.takeWhile (· != '=')
  if name.length < word.length then (name, some (word.drop (name.length + 1))) else (name, none)

/-! ### Texts -/

def echo : Builtin := fun words => do
  if ← Act.write 1 (echoText words) then return 0
  else
    Act.complain "I/O error".toList
    return 1

def printf : Builtin := fun words => do
  let (_, words) ← options "" words
  match words with
  | [] => fail "usage: printf format [arg ...]".toList
  | format :: arguments =>
    let printed := formatText format arguments
    let possible ← Act.write 1 printed.text
    for complaint in printed.complaints.reverse do
      Act.complain complaint
    if printed.failed then
      Act.setStatus 2
      throw .error
    if !possible then
      Act.complain "I/O error".toList
      return 1
    return if printed.complaints.isEmpty then 0 else 1

/-- Evaluates a condition. -/
def test : Builtin := fun words => do
  match Condition.holds (inquire (← get)) words with
  | .error message => fail message
  | .ok value => return if value then 0 else 1

/-- Evaluates a condition in brackets. -/
def bracket : Builtin := fun words => do
  if words.getLast? = some [']'] then test words.dropLast else fail "missing ]".toList

end Builtin

end PomLens.Script
