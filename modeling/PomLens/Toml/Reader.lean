/-
This file reads a whole settings file into a table.

The file is a sequence of lines. A header opens a table, and the lines behind it add entries
to that table until the next header. A value in brackets or braces may go on over several
lines. A key or a table may be given only once.
-/

import PomLens.Toml.Scalar

namespace PomLens.Toml

open Text (Read require readWhile readMark isLineBlank skipLineBlanks)

/-! ### Values -/

/-- Skips a comment, if one starts here. -/
def skipComment : Read Unit := do
  if ← readMark "#" then
    let comment ← readWhile fun char => char != '\n' && char != '\r'
    require !(comment.any isControl)

/-- Skips a line break, and says whether there was one. -/
def skipBreak : Read Bool := do
  match afterBreak? (← get) with
  | none => return false
  | some rest =>
    set rest
    return true

/-- Skips blanks, comments and line breaks, as they may stand inside brackets. `count`
bounds the number of lines. -/
def skipSpace (count : Nat) : Read Unit := do
  match count with
  | 0 => failure
  | count + 1 =>
    skipLineBlanks
    skipComment
    if ← skipBreak then skipSpace count

/-- Skips whatever may stand between two values inside brackets. -/
def skipAll : Read Unit := do
  skipSpace ((← get).length + 1)

/-- The greatest number of arrays and tables in brackets and braces around a value. -/
def nestingLimit : Nat := 80

mutual

/-- Reads a value, in which brackets and braces may still open `depth` times. `fuel` bounds
the nesting and the number of items; the length of the text is enough. -/
def readValue (fuel depth : Nat) : Read Value := do
  match fuel with
  | 0 => failure
  | fuel + 1 =>
    match ← get, depth with
    | '"' :: _, _ | '\'' :: _, _ => return .string (← readString)
    | '[' :: rest, depth + 1 =>
      set rest
      return .array false (← readItems fuel depth)
    | '\x7b' :: rest, depth + 1 =>
      set rest
      return .table .complete (← readEntries fuel depth [])
    | _, _ => readScalar

/-- Reads the items of an array up to its closing bracket. A comma may follow the last. -/
def readItems (fuel depth : Nat) : Read (List Value) := do
  match fuel with
  | 0 => failure
  | fuel + 1 =>
    skipAll
    if ← readMark "]" then return []
    let item ← readValue fuel depth
    skipAll
    if ← readMark "," then return item :: (← readItems fuel depth)
    require (← readMark "]")
    return [item]

/-- Reads the entries of a table up to its closing brace, after those already read. A comma
may follow the last. -/
def readEntries (fuel depth : Nat) (entries : Entries) : Read Entries := do
  match fuel with
  | 0 => failure
  | fuel + 1 =>
    skipAll
    if ← readMark "\x7d" then return entries
    let (key, path) ← readKey
    skipAll
    require (← readMark "=")
    skipAll
    let value ← readValue fuel depth
    let entries ← liftM (addDotted entries key path value)
    skipAll
    if ← readMark "," then readEntries fuel depth entries
    else
      require (← readMark "\x7d")
      return entries

end

/-! ### Lines -/

/-- The file read so far and the path of the table at hand. -/
structure Draft where
  entries : Entries
  /-- The header above, none in front of the first. -/
  header : Option (String × List String)

/-- Adds a key with its value to the table at hand. -/
def Draft.add (draft : Draft) (key : String) (path : List String) (value : Value) :
    Option Draft := do
  match draft.header with
  | none => some { draft with entries := ← addDotted draft.entries key path value }
  | some (first, rest) =>
    some { draft with entries := ← changeAt (addTo key path value) draft.entries first rest }

/-- Opens a table by a header, and makes it the one at hand. -/
def Draft.open (draft : Draft) (doubled : Bool) (key : String) (path : List String) :
    Option Draft := do
  let change := if doubled then openItem else openTable
  some ⟨← changeAt change draft.entries key path, some (key, path)⟩

/-- Reads one line without its end: nothing, a header, or a key with its value. -/
def readLine (draft : Draft) : Read Draft := do
  skipLineBlanks
  match ← get with
  | [] | '#' :: _ | '\n' :: _ | '\r' :: _ => return draft
  | '[' :: '[' :: rest =>
    set rest
    let (key, path) ← readKey
    require (← readMark "]]")
    liftM (draft.open true key path)
  | '[' :: rest =>
    set rest
    let (key, path) ← readKey
    require (← readMark "]")
    liftM (draft.open false key path)
  | _ =>
    let (key, path) ← readKey
    require (← readMark "=")
    skipLineBlanks
    let value ← readValue ((← get).length + 1) nestingLimit
    liftM (draft.add key path value)

/-- Reads the lines up to the end of the text. `count` bounds their number. -/
def readLines (count : Nat) (draft : Draft) : Read Draft := do
  match count with
  | 0 => failure
  | count + 1 =>
    let draft ← readLine draft
    skipLineBlanks
    skipComment
    if ← skipBreak then readLines count draft
    else
      require (← get).isEmpty
      return draft

/-- The entries of a settings file. A byte order mark in front is passed over. There are
none where the text is malformed or says something twice. -/
def parse? (text : String) : Option Entries := do
  let body := (Text.afterPrefix? ['\uFEFF'] text.toList).getD text.toList
  let (draft, _) ← readLines (body.length + 1) ⟨[], none⟩ body
  some draft.entries

end PomLens.Toml
