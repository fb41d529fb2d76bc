/-
This file carries out commands.

Every command but the listing of projects reads one descriptor, which must be well formed,
and has the build tool report on its dependencies. A command that changes the descriptor
either shows the changed text or writes it; it never does both, and it changes no other
file.
-/

import PomLens.BuildTool.Runner
import PomLens.Diagnosis.Finding
import PomLens.Edit.Destination
import PomLens.Workspace.Discovery
import PomLens.Workspace.Inheritance

namespace PomLens.CommandLine

/-! ### Results -/

/-- Why a command failed. -/
inductive CommandError
  /-- The descriptor cannot be read, or has no absolute path. -/
  | unreadable (error : FileError)
  | project (error : ProjectError)
  | markup (error : Markup.MarkupError)
  | remedy (error : RemedyError)
  | edit (error : EditError)
  | pattern (error : PatternError)
  /-- The artifact is not among the dependencies. -/
  | notInTree (key : ArtifactKey)
  /-- The changed descriptor could not be written. -/
  | editRejected (path : Path)
  /-- There are conflicts. -/
  | conflicts (count : Nat)
  deriving Repr

def CommandError.message : CommandError → String
  | .unreadable error => error.message
  | .project error => error.message
  | .markup error => error.message
  | .remedy error => error.message
  | .edit error => error.message
  | .pattern error => error.message
  | .notInTree key => s!"{key.render} is not part of the dependency tree"
  | .editRejected path => s!"failed to apply edits to {path.text}"
  | .conflicts count => s!"{count} dependency conflict(s) found"

/-- A step of a command. It may change files, and they stay changed if it fails. -/
abbrev Step := ExceptT CommandError (StateM FileTree)

/-! ### Reading the descriptor -/

/-- A descriptor with what is known about it. -/
structure Loaded where
  /-- The descriptor under the path that was given. -/
  document : Document
  /-- The project under the descriptor's absolute path. -/
  project : Project

/-- The dependencies of a loaded descriptor. -/
def Loaded.forest (loaded : Loaded) : Report.Forest :=
  (loaded.project.tree.map TreeView.forest).getD .empty

/-- Turns one kind of error into an error of a command. -/
def orFail {ε α : Type} (wrap : ε → CommandError) : Except ε α → Step α
  | .ok value => return value
  | .error error => throw (wrap error)

/-- The normalized absolute form of a path. -/
def absolutePath (path : Path) : Step Path := do
  match path.absolute? (← get).current with
  | none => throw (.unreadable .emptyPath)
  | some path => return path.normalize

/-- Reads a descriptor and has the build tool report on its dependencies. The tool may change
files. -/
def load (runner : Runner) (pom : Path) : Step Loaded := do
  let text ← orFail .unreadable ((← get).read pom)
  let project := Project.new (← absolutePath pom)
  let (project, parsed) := project.parseDeclared text
  orFail .project parsed
  let answer := runner.treeReport project.path
  set answer.files
  let (project, refreshed) := project.takeTreeReport answer.text
  let _ ← orFail .project refreshed
  return ⟨⟨pom, text⟩, project⟩

/-! ### Showing -/

/-- Shows the tree of dependencies. -/
def showTree (runner : Runner) (pom : Path) : Step String := do
  return (← load runner pom).forest.listing

/-- The conflicts of a descriptor. -/
structure Check where
  /-- A line for each conflict. -/
  listing : String
  count : Nat
  deriving DecidableEq, Repr

/-- The line for a conflict. Lines and columns are counted from one. -/
def conflictLine (pom : Path) (finding : Finding) : String :=
  let start := finding.diagnostic.range.start
  s!"{pom.text}:{start.line + 1}:{start.character + 1}: warning: {finding.diagnostic.message}\n"

/-- Lists the conflicts of a descriptor. -/
def check (runner : Runner) (pom : Path) : Step Check := do
  let loaded ← load runner pom
  let found ← orFail .markup (findings loaded.document loaded.forest)
  return ⟨String.join (found.map (conflictLine pom)), found.length⟩

/-! ### Changing -/

/-- Shows the changed text of a document, or writes it. -/
def emit (document : Document) (edits : EditSet) (write : Bool) : Step String := do
  if write then
    match (← get).applyEdits? edits with
    | none => throw (.editRejected edits.path)
    | some files =>
      set files
      return ""
  else orFail .edit (edits.applyTo document.text)

/-- Emits a remedy. If there is nothing to be done, nothing is. -/
def emitRemedy (document : Document) (remedy : Except RemedyError (Option EditSet))
    (write : Bool) : Step String := do
  match ← orFail .remedy remedy with
  | none => return ""
  | some edits => emit document edits write

/-- How the settings lay out new markup. -/
def styleOf (settings : EditSettings) : Remedy.Style :=
  ⟨settings.indent, settings.eol⟩

/-- Pins an artifact to a version. -/
def resolve (runner : Runner) (settings : Settings) (pom : Path) (key : ArtifactKey)
    (version : String) (write : Bool) : Step String := do
  let loaded ← load runner pom
  match loaded.project.dependencyVersion? key with
  | none => throw (.notInTree key)
  | some effective =>
    emitRemedy loaded.document
      (Remedy.pin loaded.document key effective version (styleOf settings.edit)) write

/-- The occurrence of an artifact that is to be excluded: one that lost a conflict, else one
that another dependency pulled in, else any. The first of its sort is taken. -/
def occurrenceToExclude? (forest : Report.Forest) (key : ArtifactKey) : Option Nat :=
  let found := forest.find key
  let isConflict (index : Nat) := (forest.nodes[index]?).any fun node => node.entry.isConflict
  let isPulledIn (index : Nat) := (forest.nodes[index]?).any fun node => node.parent.isSome
  found.find? isConflict <|> found.find? isPulledIn <|> found.head?

/-- Excludes an artifact from the direct dependency that pulls it in. -/
def exclude (runner : Runner) (settings : Settings) (pom : Path) (key : ArtifactKey)
    (write : Bool) : Step String := do
  let loaded ← load runner pom
  match occurrenceToExclude? loaded.forest key with
  | none => throw (.notInTree key)
  | some index =>
    emitRemedy loaded.document
      (Remedy.exclude loaded.document loaded.forest index (styleOf settings.edit)) write

/-! ### Listing projects -/

/-- The line for a project: its key, its path, and its parent's key if both are known. -/
def projectLine (workspace : Workspace) (files : FileTree) (folder : Path)
    (project : Project) : String :=
  let key := (project.id? workspace files).getD "<unparsed>"
  let shown := (project.path.relativeTo? folder).getD project.path
  let parent := workspace.parentOf? files project >>= fun parent => parent.id? workspace files
  let ending :=
    match parent with
    | none => ""
    | some parent => s!"\tparent={parent}"
  s!"{key}\t{shown.text}{ending}\n"

/-- Lists the projects of a folder. -/
def listProjects (settings : DiscoverySettings) (folder : Path) : Step String := do
  let files ← get
  let folder ← absolutePath folder
  let (workspace, found) ← orFail .pattern (Workspace.empty.discover files folder settings)
  return String.join ((found.filterMap workspace.get?).map
    (projectLine workspace files folder))

end PomLens.CommandLine
