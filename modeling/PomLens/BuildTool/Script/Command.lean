/-
This file defines the commands of scripts.

The wrapper of a build tool is a script in the language of the usual command shell. A command
is what a script says, before anything in it is replaced by a value; how it runs is defined
elsewhere. Commands that stand in a line of the script know which, because complaints name
it.
-/

import PomLens.BuildTool.Script.Raw

namespace PomLens.Script

/-- What is cut off a value where it matches a pattern. -/
inductive Removal
  | shortestStart
  | longestStart
  | shortestEnd
  | longestEnd
  deriving DecidableEq, Repr

mutual

/-- A part of a word. -/
inductive Fragment
  /-- Characters as they are. Unquoted, some of them act as a pattern. -/
  | text (quoted : Bool) (chars : Raw)
  /-- The home directory. -/
  | home
  /-- What is made of a parameter: a variable, an argument or a value of the shell. -/
  | parameter (quoted : Bool) (name : String) (use : Use)
  /-- What commands write to their standard output. -/
  | output (quoted : Bool) (commands : List Command)
  /-- The value of an arithmetic expression. -/
  | arithmetic (quoted : Bool) (expression : List Fragment)

/-- What is made of a parameter. Where `emptyToo` is set, an empty value counts as missing. -/
inductive Use
  | value
  | length
  /-- The value without a part that matches a pattern. -/
  | removal (removal : Removal) (pattern : List Fragment)
  /-- A word in place of a missing value. -/
  | fallback (emptyToo : Bool) (word : List Fragment)
  /-- A word in place of a missing value, which is set to it. -/
  | assignment (emptyToo : Bool) (word : List Fragment)
  /-- A complaint if the value is missing. -/
  | complaint (emptyToo : Bool) (word : List Fragment)
  /-- A word in place of a value that is not missing. -/
  | alternative (emptyToo : Bool) (word : List Fragment)
  /-- Something that is not defined. -/
  | undefined

/-- Where a channel of a command leads. -/
inductive Target
  | readFile (name : List Fragment)
  /-- To a file, behind what is there or in place of it. -/
  | writeFile (append : Bool) (name : List Fragment)
  /-- To a file that is read and written and stays as it is. -/
  | useFile (name : List Fragment)
  /-- To where another channel leads, or nowhere. -/
  | copy (channel : List Fragment)
  /-- From a text in the script. -/
  | here (body : List Fragment)

/-- A change of where a channel leads. -/
inductive Redirection
  | mk (channel : Nat) (target : Target)

/-- A command of a script. -/
inductive Command
  /-- A program, function or built-in command with its arguments, or settings of variables
  alone. -/
  | simple (line : Nat) (settings : List Setting) (words : List (List Fragment))
      (redirections : List Redirection)
  /-- Commands of which each reads what the one before it writes. -/
  | pipeline (commands : List Command)
  /-- Turns success into failure and failure into success. -/
  | negation (command : Command)
  /-- Runs a second command if the first one ended as `success` says. -/
  | sequel (success : Bool) (first second : Command)
  /-- Runs a command beside the script. -/
  | background (line : Nat) (command : Command)
  | group (body : List Command)
  /-- Runs commands that cannot change the variables of the script. -/
  | subshell (line : Nat) (body : List Command)
  /-- Runs commands for each of some words, or for each argument. -/
  | loop (line : Nat) (name : String) (words : Option (List (List Fragment)))
      (body : List Command)
  /-- Runs commands over and over as long as a test ends as `success` says. -/
  | repetition (success : Bool) (test body : List Command)
  /-- Runs the first branch with a pattern that a word matches. -/
  | choice (line : Nat) (subject : List Fragment) (branches : List Branch)
  /-- Runs commands depending on whether others succeed. -/
  | condition (test yes no : List Command)
  /-- Defines a function. -/
  | definition (line : Nat) (name : String) (body : Command)
  /-- Runs a command with some of its channels changed. -/
  | redirected (line : Nat) (command : Command) (redirections : List Redirection)

/-- Gives a value to a variable. -/
inductive Setting
  | mk (name : String) (value : List Fragment)

/-- A branch of a choice. -/
inductive Branch
  | mk (patterns : List (List Fragment)) (body : List Command)

end

instance : Inhabited Command := ⟨.group []⟩

/-- A word: parts without a blank between them. -/
abbrev Word := List Fragment

end PomLens.Script
