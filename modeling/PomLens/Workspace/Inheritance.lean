/-
This file says what a project inherits from the projects above it.

The parent of a project is the registered project at its declared parent path, else the one
that lists it as a module. Going from parent to parent gives the lineage, which ends before
it would come to a project a second time. A value that a project lacks is looked for along
its lineage, and the nearest project that has it decides.
-/

import PomLens.Workspace.Registry

namespace PomLens

/-! ### Lineage -/

namespace Workspace

/-- The parent of a project. -/
def parentOf? (workspace : Workspace) (files : FileTree) (project : Project) :
    Option Project :=
  (project.parentPath? files >>= workspace.get?) <|>
    (project.parentLink >>= workspace.get?)

/-- The projects above `project`, as far as they are not among those visited. -/
def lineageFrom (workspace : Workspace) (files : FileTree) (project : Project)
    (visited : List Path) : Nat → List Project
  | 0 => []
  | fuel + 1 =>
    match workspace.parentOf? files project with
    | none => []
    | some parent =>
      if parent.path ∈ visited then []
      else parent :: lineageFrom workspace files parent (parent.path :: visited) fuel

/-- The projects above a project, nearest first. No project comes twice, so their number
bounds the climb. -/
def lineage (workspace : Workspace) (files : FileTree) (project : Project) : List Project :=
  workspace.lineageFrom files project [project.path] (workspace.size + 1)

end Workspace

/-! ### Inherited values -/

namespace Project

variable (project : Project) (workspace : Workspace) (files : FileTree)

/-- The first value that `pick` finds in a declared view, the project's own first. -/
def inherited? (pick : Descriptor → Option String) : Option String :=
  (project :: workspace.lineage files project).findSome? fun origin =>
    origin.declared >>= pick

/-- The project's group: its own, else the one that its parent reference names, else an
inherited one. -/
def group? : Option String :=
  project.inherited? workspace files fun descriptor =>
    descriptor.group <|> (descriptor.parent >>= ParentReference.group)

/-- The project's version, found like its group. -/
def version? : Option String :=
  project.inherited? workspace files fun descriptor =>
    descriptor.version <|> (descriptor.parent >>= ParentReference.version)

/-- Values that every project has under fixed names. -/
def builtInProperty? (name : String) : Option String :=
  match name with
  | "project.groupId" => project.group? workspace files
  | "project.artifactId" => project.artifact?
  | "project.version" => project.version? workspace files
  | _ => none

/-- The value of a property: the project's own, else the nearest inherited one, else the
built-in one. -/
def resolveProperty? (name : String) : Option String :=
  (project :: workspace.lineage files project).findSome? (fun origin => origin.property? name)
    <|> project.builtInProperty? workspace files name

end Project

/-! ### Placeholders -/

/-- A part of a text with placeholders. -/
inductive Piece
  | plain (text : List Char)
  /-- A name between `$` with a brace and the closing brace. -/
  | placeholder (name : List Char)
  deriving DecidableEq, Repr

/-- What starts a placeholder. -/
def placeholderStart : List Char := ['$', '\x7b']

/-- The piece as it was written. -/
def Piece.written : Piece → List Char
  | .plain text => text
  | .placeholder name => placeholderStart ++ name ++ ['\x7d']

theorem length_after_placeholder {text before rest name after : List Char}
    (started : Text.splitAtText? placeholderStart text = some (before, rest))
    (ended : Text.splitOnce? (· == '\x7d') rest = some (name, after)) :
    after.length < text.length := by
  have first := Text.length_lt_of_splitAtText? (by simp [placeholderStart]) started
  unfold Text.splitOnce? at ended
  split at ended
  · cases ended
  · next tail found =>
    cases ended
    have := (List.dropWhile_suffix (l := rest) fun char => !(char == '\x7d')).length_le
    rw [found] at this
    simp at this
    omega

/-- The pieces of a text, from the left. A placeholder that is not closed is no placeholder,
and then nothing behind it is one. -/
def pieces (text : List Char) : List Piece :=
  match _started : Text.splitAtText? placeholderStart text with
  | none => [.plain text]
  | some (before, rest) =>
    match _ended : Text.splitOnce? (· == '\x7d') rest with
    | none => [.plain text]
    | some (name, after) => .plain before :: .placeholder name :: pieces after
termination_by text.length
decreasing_by exact length_after_placeholder _started _ended

/-- The text of a piece when placeholders are replaced by values. One without a value stays
as it is. -/
def Piece.fill (value? : String → Option String) (piece : Piece) : List Char :=
  match piece with
  | .plain text => text
  | .placeholder name =>
    match value? (String.ofList name) with
    | none => piece.written
    | some value => value.toList

namespace Project

variable (project : Project) (workspace : Workspace) (files : FileTree)

/-- The text with its placeholders replaced by the values of properties. A value is not
searched for further placeholders. -/
def fill (raw : String) : String :=
  String.ofList ((pieces raw.toList).flatMap
    (Piece.fill (project.resolveProperty? workspace files)))

/-- The name to show: the declared one with its placeholders replaced, else the artifact's. -/
def displayName? : Option String := do
  let declared ← project.declared
  match declared.name with
  | none => declared.artifact
  | some raw => some (project.fill workspace files raw)

/-- The written key of the project. -/
def id? : Option String := do
  let group ← project.group? workspace files
  let artifact ← project.artifact?
  some (ArtifactKey.render ⟨group, artifact⟩)

/-- The name by which the project is found among several that were merged. -/
def mergedName : String :=
  (project.displayName? workspace files).getD ""

/-- Asks for the merged view and takes it up. With `keepOld`, a view that is there already
will do. -/
def computeMerged (runner : Runner) (keepOld : Bool) :
    Project × Except ProjectError MergedView :=
  match project.requestMerged keepOld with
  | .error error => (project, throw error)
  | .ok (some old) => (project, return old)
  | .ok none =>
    project.takeMerged (project.mergedName workspace files)
      (runner.mergedDescriptor project.path).text

end Project

end PomLens
