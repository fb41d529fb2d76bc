/-
This file defines a file tree: the files and folders that a run of the program can see.

Everything the library reads from disk it reads from such a value, so that what a command
does is a function of the files it finds. A path is resolved step by step from the root or
the working directory, and each step must lead out of a folder that exists.
-/

import PomLens.Path

namespace PomLens

/-- Why a file cannot be read. -/
inductive FileError
  | notFound
  | notAFolder
  | isAFolder
  | notPermitted
  /-- The file is no program. -/
  | noProgram
  /-- The file holds no text. -/
  | notText
  /-- The empty path has no absolute form. -/
  | emptyPath
  deriving DecidableEq, Repr

def FileError.message : FileError → String
  | .notFound => "No such file or directory (os error 2)"
  | .notAFolder => "Not a directory (os error 20)"
  | .isAFolder => "Is a directory (os error 21)"
  | .notPermitted => "Permission denied (os error 13)"
  | .noProgram => "Exec format error (os error 8)"
  | .notText => "stream did not contain valid UTF-8"
  | .emptyPath => "cannot make an empty path absolute"

/-- What stands at a location. -/
inductive FileEntry
  | folder
  | file (content : String) (executable : Bool)
  /-- A file that holds no text. -/
  | data (bytes : List UInt8) (executable : Bool)
  deriving DecidableEq, Repr

/-- The entry is a file. -/
def FileEntry.isFile : FileEntry → Bool
  | .folder => false
  | _ => true

/-- The names that lead to a file or folder from the root. -/
abbrev FileLocation := List String

/-- Files and folders by their locations. Every folder on the way to an entry is an entry
itself; the root is always there. -/
structure FileTree where
  entries : List (FileLocation × FileEntry)
  /-- The working directory. -/
  current : Path
  deriving Repr

namespace FileTree

/-! ### Building -/

/-- Nothing but the root. -/
def empty : FileTree :=
  ⟨[], ⟨"/"⟩⟩

/-- What stands at a location. -/
def at? (tree : FileTree) (location : FileLocation) : Option FileEntry :=
  if location.isEmpty then some .folder else tree.entries.lookup location

/-- The tree with an entry at a location, in place of what stood there. -/
def set (tree : FileTree) (location : FileLocation) (entry : FileEntry) : FileTree :=
  { tree with entries := (location, entry) :: tree.entries.filter fun (other, _) => other ≠ location }

/-- The tree with a folder at a location, unless something stands there. -/
def addFolder (tree : FileTree) (location : FileLocation) : FileTree :=
  if (tree.at? location).isSome then tree else tree.set location .folder

/-- The tree with an entry at a location and folders on the way to it. -/
def add (tree : FileTree) (location : FileLocation) (entry : FileEntry) : FileTree :=
  let folders := (List.range location.length).map fun length => location.take length
  (folders.foldl addFolder tree).set location entry

/-- The tree without a location and all below it. -/
def remove (tree : FileTree) (location : FileLocation) : FileTree :=
  { tree with entries := tree.entries.filter fun (other, _) => !location.isPrefixOf other }

/-! ### Looking -/

/-- One step from an existing location. -/
def step (tree : FileTree) (location : FileLocation) (part : List Char) :
    Except FileError FileLocation :=
  match tree.at? location with
  | none => throw .notFound
  | some (.file ..) | some (.data ..) => throw .notAFolder
  | some .folder =>
    if part = [] || part = ['.'] then return location
    else if part = ['.', '.'] then return location.dropLast
    else
      let next := location ++ [String.ofList part]
      if (tree.at? next).isSome then return next else throw .notFound

/-- The location that a path names. -/
def resolve (tree : FileTree) (path : Path) : Except FileError FileLocation := do
  let parts (path : Path) := Text.splitOn (· == '/') path.text.toList
  if path.text = "" then throw .notFound
  else if path.isAbsolute then (parts path).foldlM tree.step []
  else
    let current ← (parts tree.current).foldlM tree.step []
    (parts path).foldlM tree.step current

/-- What stands where a path leads. -/
def entry? (tree : FileTree) (path : Path) : Option FileEntry :=
  match tree.resolve path with
  | .error _ => none
  | .ok location => tree.at? location

def isFile (tree : FileTree) (path : Path) : Bool :=
  (tree.entry? path).any FileEntry.isFile

def isFolder (tree : FileTree) (path : Path) : Bool :=
  tree.entry? path == some .folder

/-- The location of something that is there, or that can be put there: only the last step of
its path may lead to what is not there. -/
def place (tree : FileTree) (path : Path) : Except FileError FileLocation :=
  match tree.resolve path with
  | .ok location => return location
  | .error error =>
    let reversed := path.text.toList.reverse
    let last := (reversed.takeWhile (· != '/')).reverse
    let before := String.ofList (reversed.drop last.length).reverse
    if last.isEmpty then throw error
    else do
      let folder ← tree.resolve ⟨if before = "" then "." else before⟩
      if tree.at? folder = some .folder then return folder ++ [String.ofList last]
      else throw .notAFolder

/-- The names of what stands directly in a folder. -/
def namesIn (tree : FileTree) (folder : FileLocation) : List String :=
  tree.entries.filterMap fun (other, _) =>
    if other.length = folder.length + 1 && folder.isPrefixOf other then other.getLast? else none

/-- The content of a file. -/
def read (tree : FileTree) (path : Path) : Except FileError String := do
  let location ← tree.resolve path
  match tree.at? location with
  | some (.file content _) => return content
  | some (.data ..) => throw .notText
  | some .folder => throw .isAFolder
  | none => throw .notFound

/-- The tree with new content in a file that is there. -/
def overwrite (tree : FileTree) (path : Path) (content : String) : Except FileError FileTree := do
  let location ← tree.resolve path
  match tree.at? location with
  | some (.file _ executable) | some (.data _ executable) =>
    return tree.set location (.file content executable)
  | some .folder => throw .isAFolder
  | none => throw .notFound

/-- The names of the folders directly in a folder. -/
def foldersIn (tree : FileTree) (folder : Path) : List String :=
  match tree.resolve folder with
  | .error _ => []
  | .ok location => tree.entries.filterMap fun (other, entry) =>
    match entry, other.getLast? with
    | .folder, some name => if other.dropLast = location then some name else none
    | _, _ => none

/-- The paths of all files at or below a path, relative to it. -/
def filesBelow (tree : FileTree) (folder : Path) : List Path :=
  match tree.resolve folder with
  | .error _ => []
  | .ok location => tree.entries.filterMap fun (other, entry) =>
    match entry.isFile, location.isPrefixOf other with
    | true, true => some ⟨"/".intercalate (other.drop location.length)⟩
    | _, _ => none

end FileTree

end PomLens
