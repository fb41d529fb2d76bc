/-
This file is the program: it takes a picture of the files that a command may look at, runs
the command on the picture, and brings back to disk what the command changed.

The picture holds the folder that the settings belong to with all that is in it, the files
that the arguments name, and the wrapper scripts further up. Whether a file may be run is
not known here, so wrapper scripts count as runnable. The build tool runs on the picture too,
as a script.
-/

import PomLens.BuildTool.Script.Run
import PomLens.CommandLine.Run

namespace PomLens.CommandLine

/-- The names of a path from the root. -/
def namesOf (path : Path) : FileLocation :=
  path.normalize.components.filterMap fun step =>
    match step with
    | .name text => some text
    | _ => none

/-- Adds a file to the picture, if there is one that holds text. -/
def addFile (files : FileTree) (path : Path) : IO FileTree := do
  try
    let content ← IO.FS.readFile path.text
    let names := namesOf path
    return files.add names (.file content (names.getLast? == some wrapperName))
  catch _ => return files

/-- Adds a folder with all that is in it to the picture. `depth` bounds how far down. -/
def addFolder (files : FileTree) (path : Path) (depth : Nat) : IO FileTree := do
  match depth with
  | 0 => return files
  | depth + 1 =>
    let here ← IO.currentDir
    try
      let mut seen := files.add (namesOf path) .folder
      for entry in ← (here / path.text).readDir do
        let inner := path / entry.fileName
        if ← entry.path.isDir then seen ← addFolder seen inner depth
        else seen ← addFile seen inner
      return seen
    catch _ => return files

/-- Everything that a command may look at. -/
def picture (environment : Environment) (current : Path) (arguments : List String) :
    IO FileTree := do
  let start := { FileTree.empty.add (namesOf current) .folder with current }
  match parse arguments with
  | .error _ => return start
  | .ok invocation =>
    let root := invocation.request.workspaceRoot
    let folder := (root.absolute? current).getD current
    let named := invocation.config.toList ++ invocation.report.toList ++
      [Settings.userFile environment] ++
      folder.ancestors.map fun outer => outer / wrapperName
    let deep := match invocation.request with
      | .projects _ => 64
      | _ => 2
    let files ← addFolder start folder deep
    named.foldlM (fun files path => addFile files ((path.absolute? current).getD path)) files

/-- Writes the files that differ between two pictures. -/
def writeChanges (before after : FileTree) : IO Unit := do
  for (names, entry) in after.entries do
    let path := "/" ++ "/".intercalate names
    if before.at? names != some entry then
      match entry with
      | .file content _ => IO.FS.writeFile path content
      | .data bytes _ => IO.FS.writeBinFile path ⟨bytes.toArray⟩
      | .folder => IO.FS.createDirAll path

/-- The whole program. -/
def program (arguments : List String) : IO UInt32 := do
  let current : Path := ⟨(← IO.currentDir).toString⟩
  let home : Path := ⟨(← IO.getEnv "HOME").getD "/"⟩
  let environment : Environment := ⟨home, (← IO.getEnv "XDG_CONFIG_HOME").map Path.mk⟩
  let files ← picture environment current arguments
  let ending := run Script.system environment files arguments
  writeChanges files ending.files
  IO.print ending.output
  IO.eprint ending.complaint
  return ending.code.toUInt32

end PomLens.CommandLine

def main (arguments : List String) : IO UInt32 :=
  PomLens.CommandLine.program arguments
