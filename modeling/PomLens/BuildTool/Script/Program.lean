/-
This file finds the programs that a script calls.

A program is one of those that are on every system, or a file at hand that may be run. Such a
file names in its first line the program that runs it.
-/

import PomLens.BuildTool.Script.System

namespace PomLens.Script

/-! ### First lines -/

/-- A program that runs a file, with the one argument that it gets in front. -/
structure Interpreter where
  path : Raw
  argument : Option Raw
  deriving DecidableEq, Repr

/-- The program that the first line of a file names. -/
def interpreter? (content : Raw) : Option Interpreter :=
  match content with
  | '#' :: '!' :: rest =>
    let line := (rest.takeWhile (· != '\n')).dropWhile Text.isLineBlank
    let line := Text.dropEndWhile Text.isLineBlank line
    let path := line.takeWhile fun char => !Text.isLineBlank char && char != '\x00'
    let argument := (line.drop path.length).dropWhile Text.isLineBlank
    if path.isEmpty then none
    else some ⟨path, if argument.isEmpty then none else some argument⟩
  | _ => none

/-! ### Finding -/

/-- A program that was found. -/
inductive Program
  /-- One that is on every system, by its name. -/
  | known (name : String)
  /-- A file at hand. -/
  | file (path content : Raw)
  deriving Repr

namespace Act

/-- The program at a path. -/
def programAt (path : Raw) : Act (Except FileError Program) := do
  match Script.programAt? path with
  | some name => return .ok (.known name)
  | none =>
    match ← locate path with
    | .error error => return .error error
    | .ok location =>
      match (← get).files.at? location with
      | none => return .error .notFound
      | some (.file content true) => return .ok (.file path (Raw.ofString content))
      | some (.data bytes true) => return .ok (.file path (Raw.ofBytes bytes))
      | some _ => return .error .notPermitted

/-- The path and the program that a name means: itself if it has a slash, else what has the
name in the first of the usual folders. -/
def findProgram (name : Raw) : Act (Except FileError (Raw × Program)) := do
  if name.contains '/' then
    return (← programAt name).map fun program => (name, program)
  else
    let folders := Text.splitOn (· == ':') ((← valueOf? "PATH").getD usualFolders)
    let mut error := FileError.notFound
    if name.isEmpty then return .error error
    for folder in folders do
      let path := if folder.isEmpty then name else folder ++ '/' :: name
      match ← programAt path with
      | .ok program => return .ok (path, program)
      | .error .notPermitted =>
        if (← entry? path).any FileEntry.isFile then error := .notPermitted
      | .error _ => pure ()
    return .error error

end Act

/-- The status of a program that could not be run. -/
def failureStatus : FileError → Nat
  | .notPermitted | .noProgram => 126
  | _ => 127

end PomLens.Script
