/-
This file defines readers: steps that take what they read from the front of a text.

A reader has the text still to be read as its state, and it fails where that text is not
what it reads.
-/

import PomLens.Text.Blank

namespace PomLens.Text

/-- A step that reads from the front of a text. -/
abbrev Read := StateT (List Char) Option

/-- Fails where a condition does not hold. -/
def require (condition : Bool) : Read Unit :=
  if condition then pure () else failure

/-- Reads the longest run of characters that satisfy `accepts`. -/
def readWhile (accepts : Char → Bool) : Read (List Char) := do
  let text ← get
  set (text.dropWhile accepts)
  return text.takeWhile accepts

/-- Reads `mark` if it comes next, and says whether it did. -/
def readMark (mark : String) : Read Bool := do
  match afterPrefix? mark.toList (← get) with
  | none => return false
  | some rest =>
    set rest
    return true

/-- Blanks within a line. -/
def isLineBlank (char : Char) : Bool :=
  char == ' ' || char == '\t'

def skipLineBlanks : Read Unit := do
  let _ ← readWhile isLineBlank

end PomLens.Text
