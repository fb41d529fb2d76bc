/-
This file defines what the commands of a script are read from: a text and the line at which
reading stands, together with the tokens that commands are made of.

Reading fails with a complaint that names a line.
-/

import PomLens.BuildTool.Script.Command

namespace PomLens.Script

open Text (isLineBlank)

/-! ### Tokens -/

inductive Token
  /-- A word with the line in which it starts. -/
  | word (line : Nat) (word : Word)
  | redirection (redirection : Redirection)
  /-- The end of a line. -/
  | newline
  /-- The end of the text. -/
  | ending
  /-- An operator. -/
  | mark (text : String)

/-- Words with a meaning of their own where a command may start. -/
def keywords : List String :=
  ["!", "case", "do", "done", "elif", "else", "esac", "fi", "for", "if", "in", "then", "until",
    "while", "\x7b", "\x7d"]

/-- Built-in commands whose errors end the script. No function can have such a name. -/
def specialNames : List String :=
  [".", ":", "break", "continue", "eval", "exec", "exit", "export", "local", "readonly", "return",
    "set", "shift", "times", "trap", "unset"]

/-- Tokens that end a list of commands inside another command. -/
def closers : List String :=
  ["do", "done", "elif", "else", "esac", "fi", "then", "\x7d", ")", ";;"]

/-- The characters of a word without quotes and without anything to be replaced. -/
def plainText? : Word → Option Raw
  | [] => some []
  | .text false chars :: rest => (plainText? rest).map (chars ++ ·)
  | _ => none

/-- The keyword that a token is where a command may start, or the operator that it is. -/
def Token.sign? : Token → Option String
  | .mark text => some text
  | .word _ parts =>
    ((plainText? parts).map String.ofList).filter keywords.contains
  | _ => none

/-- How a complaint names a token. A keyword is named as one only where it could be one. -/
def Token.name (token : Token) (keywordPossible : Bool) : String :=
  let quoted (text : String) : String := s!"\"{text}\""
  match token, token.sign? with
  | .mark text, _ => quoted text
  | .ending, _ => "end of file"
  | .newline, _ => "newline"
  | .redirection _, _ => "redirection"
  | .word .., some keyword => if keywordPossible then quoted keyword else "word"
  | .word .., none => "word"

/-! ### Sources -/

/-- A name in whose place a text was put. -/
structure Replaced where
  name : String
  /-- The length of what stands behind the text. -/
  behind : Nat
  /-- Whether the word behind the text may be such a name too, as the text ends in a blank. -/
  goesOn : Bool

structure Source where
  /-- What is still to be read. -/
  text : Raw
  /-- The line at hand, counted from one. -/
  line : Nat
  /-- The number of lines that have been read ahead, behind the line at hand. -/
  ahead : Nat
  /-- A token that was read and put back. -/
  waiting : Option Token
  /-- Texts that stand for the names of commands. -/
  aliases : List (String × Raw)
  /-- The names whose texts are being read. -/
  replaced : List Replaced

/-- The start of a text. -/
def Source.start (text : Raw) : Source :=
  ⟨text, 1, 0, none, [], []⟩

/-- Why a text is no script. -/
structure Complaint where
  line : Nat
  message : String
  deriving DecidableEq, Repr

/-- A step that reads commands or their parts. -/
abbrev Parse := StateT Source (Except Complaint)

namespace Parse

/-- Fails at the line at hand. -/
def complain {α : Type} (message : String) : Parse α := do
  throw ⟨(← get).line, s!"Syntax error: {message}"⟩

/-- Fails at a token, and may say what should have come. -/
def unexpected {α : Type} (token : Token) (keywordPossible : Bool)
    (expected : Option String) : Parse α := do
  let hint :=
    match expected with
    | none => ""
    | some text => s!" (expecting \"{text}\")"
  complain s!"{token.name keywordPossible} unexpected{hint}"

/-- What is still to be read. -/
def rest : Parse Raw := do
  return (← get).text

/-- Passes over the next characters. -/
def advance (count : Nat) : Parse Unit :=
  modify fun source =>
    let passed := (source.text.take count).countP (· == '\n')
    { source with
      text := source.text.drop count
      line := source.line + passed + if passed = 0 then 0 else source.ahead
      ahead := if passed = 0 then source.ahead else 0 }

/-- Reads the longest run of characters that satisfy `accepts`. -/
def takeWhile (accepts : Char → Bool) : Parse Raw := do
  let run := (← rest).takeWhile accepts
  advance run.length
  return run

/-- Reads `mark` if it comes next, and says whether it did. -/
def takeMark (mark : String) : Parse Bool := do
  if mark.toList.isPrefixOf (← rest) then
    advance mark.length
    return true
  else return false

/-- Puts a token back. -/
def putBack (token : Token) : Parse Unit :=
  modify fun source => { source with waiting := some token }

/-- Passes over a character, which is no end of a line even if it is one elsewhere. -/
def skip : Parse Unit :=
  modify fun source => { source with text := source.text.tail }

/-- Puts the text for which a word stands in its place, and says whether it stands for one. A
name inside its own text stands for itself. -/
def replaceAlias (word : Word) : Parse Bool := do
  let source ← get
  let length := source.text.length
  let replaced := source.replaced.filter fun outer => outer.behind ≤ length
  match (plainText? word).map String.ofList with
  | none => return false
  | some name =>
    match source.aliases.lookup name with
    | none => return false
    | some value =>
      if replaced.any fun outer => outer.name = name then return false
      else
        set { source with
          text := value ++ source.text
          replaced := ⟨name, length, value.getLast?.any isLineBlank⟩ :: replaced }
        return true

/-- Takes the lines behind the line at hand up to one that ends a text written there, and
gives that text. With `indented`, tabulators in front of lines do not count. -/
def takeHere (indented : Bool) (ending : Raw) : Parse Raw := do
  let text ← rest
  let line := text.takeWhile (· != '\n')
  let below := text.drop (line.length + 1)
  let parts := Text.splitOn (· == '\n') below
  let bare (part : Raw) : Raw := if indented then part.dropWhile (· == '\t') else part
  let body := parts.takeWhile fun part => bare part != ending
  let found := body.length < parts.length
  let after := if found then parts.drop (body.length + 1) else []
  let kept := if !found && body.getLast? == some [] then body.dropLast else body
  modify fun source =>
    { source with
      text := line ++ (if line.length < text.length then ['\n'] else []) ++ Raw.join ['\n'] after
      ahead := source.ahead + kept.length + if found then 1 else 0 }
  return Raw.ofLines (kept.map bare)

end Parse

end PomLens.Script
