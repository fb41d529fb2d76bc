/-
This file defines a project: a descriptor's path and what is known about it.

Three things may be known. The declared view is read from the descriptor, the merged view
and the dependency tree come from the build tool. Each is replaced as a whole or stays as it
is, so a reader never sees a mixture. A failed reading of the descriptor takes the merged
view away with the declared one, so a project whose tasks are done one at a time never has a
merged view alone.
-/

import PomLens.BuildTool.Runner
import PomLens.Descriptor
import PomLens.Report.Reader
import PomLens.Version

namespace PomLens

/-! ### Descriptor paths -/

/-- The usual name of a descriptor. -/
def descriptorFileName : String := "pom.xml"

/-- The descriptor that a path means: the path itself if a file is there, else the one in
that folder. -/
def descriptorIn (files : FileTree) (target : Path) : Path :=
  if files.isFile target then target.normalize else (target / descriptorFileName).normalize

/-- The descriptor that a reference to a parent means: the one in the folder if there is
such a folder, else the path itself. -/
def descriptorAt (files : FileTree) (target : Path) : Path :=
  if files.isFolder target then (target / descriptorFileName).normalize else target.normalize

/-! ### Projects -/

/-- A descriptor as the build tool merged it. -/
structure MergedView where
  text : String
  descriptor : Descriptor
  deriving DecidableEq, Repr

/-- A dependency report that could be read. -/
structure TreeView where
  text : String
  forest : Report.Forest
  deriving DecidableEq, Repr

structure Project where
  /-- The normalized path of the descriptor. -/
  path : Path
  declared : Option Descriptor
  merged : Option MergedView
  tree : Option TreeView
  /-- The project that lists this one as a module, if one is known. -/
  parentLink : Option Path
  deriving DecidableEq, Repr

/-- Why an operation on a project failed. -/
inductive ProjectError
  /-- The descriptor cannot be read from disk. -/
  | unreadable (path : Path) (error : FileError)
  /-- A descriptor or a report cannot be understood. -/
  | invalid (path : Path) (error : ParseError)
  /-- The build tool gave no answer. -/
  | process (path : Path) (error : ProcessError)
  /-- A merged view was asked for without a declared one. -/
  | notParsed (path : Path)
  deriving DecidableEq, Repr

def ProjectError.message : ProjectError → String
  | .unreadable path error => s!"failed to read {path.text}: {error.message}"
  | .invalid path error => s!"failed to parse {path.text}: {error.message}"
  | .process path error => s!"build tool failed for {path.text}: {error.message}"
  | .notParsed path => s!"{path.text} has not been parsed"

namespace Project

/-- A project of which nothing is known but its path. -/
def new (path : Path) : Project :=
  ⟨path.normalize, none, none, none, none⟩

/-- The folder that holds the descriptor. -/
def folder (project : Project) : Path :=
  project.path.parent?.getD ⟨""⟩

/-! ### Changes

Each change gives the project behind it and says what came of it. -/

/-- Forgets the declared and the merged view. -/
def clearParsed (project : Project) : Project :=
  { project with declared := none, merged := none }

/-- Takes up a new text of the descriptor. -/
def parseDeclared (project : Project) (text : String) :
    Project × Except ProjectError Unit :=
  match Descriptor.parse text with
  | .ok descriptor => ({ project with declared := some descriptor }, return ())
  | .error error => (project.clearParsed, throw (.invalid project.path error))

/-- Takes up the descriptor's text from disk. -/
def reload (project : Project) (files : FileTree) : Project × Except ProjectError Unit :=
  match files.read project.path with
  | .ok text => project.parseDeclared text
  | .error error => (project.clearParsed, throw (.unreadable project.path error))

/-- Records the project that lists this one as a module, unless one is recorded. Says
whether it did. -/
def linkParent (project : Project) (parent : Path) : Project × Bool :=
  match project.parentLink with
  | some _ => (project, false)
  | none => ({ project with parentLink := some parent }, true)

/-- Takes up a dependency report. One that cannot be read takes the old tree away. -/
def applyTreeReport (project : Project) (text : String) :
    Project × Except ProjectError TreeView :=
  match Report.Forest.parse text with
  | .ok forest => ({ project with tree := some ⟨text, forest⟩ }, return ⟨text, forest⟩)
  | .error error =>
    ({ project with tree := none }, throw (.invalid project.path (.report error)))

/-- Takes up what the build tool answered when asked for the tree. No answer changes
nothing. -/
def takeTreeReport (project : Project) (answer : Except ProcessError String) :
    Project × Except ProjectError TreeView :=
  match answer with
  | .ok text => project.applyTreeReport text
  | .error error => (project, throw (.process project.path error))

/-- Asks for the tree and takes it up. -/
def refreshTree (project : Project) (runner : Runner) :
    Project × Except ProjectError TreeView :=
  project.takeTreeReport (runner.treeReport project.path).text

/-- What asking for the merged view comes to before the build tool is called: an error, a
view that is there already and will do, or nothing, in which case the tool must be called. -/
def requestMerged (project : Project) (keepOld : Bool) :
    Except ProjectError (Option MergedView) :=
  if project.declared.isNone then throw (.notParsed project.path)
  else if keepOld then return project.merged
  else return none

/-- Takes up what the build tool answered when asked for the merged descriptor. Of several
projects in it, `name` selects one. -/
def takeMerged (project : Project) (name : String) (answer : Except ProcessError String) :
    Project × Except ProjectError MergedView :=
  match answer with
  | .error error => (project, throw (.process project.path error))
  | .ok text =>
    match Descriptor.parseMerged text name with
    | .error error => (project, throw (.invalid project.path error))
    | .ok descriptor =>
      ({ project with merged := some ⟨text, descriptor⟩ }, return ⟨text, descriptor⟩)

/-! ### What is known -/

def artifact? (project : Project) : Option String :=
  project.declared >>= Descriptor.artifact

def packaging? (project : Project) : Option String :=
  project.declared >>= Descriptor.packaging

/-- The project's own value of a property. -/
def property? (project : Project) (name : String) : Option String :=
  project.declared >>= fun declared => declared.properties.value? name

/-- The descriptors of the declared modules. -/
def modules (project : Project) (files : FileTree) : List Path :=
  match project.declared with
  | none => []
  | some declared => declared.modules.map fun name => descriptorIn files (project.folder / name)

/-- Where the descriptor of the declared parent should lie on disk, if it should. -/
def parentPath? (project : Project) (files : FileTree) : Option Path := do
  let declared ← project.declared
  let parent ← declared.parent
  match parent.location with
  | .standard => some (project.folder / ".." / descriptorFileName).normalize
  | .notOnDisk => none
  | .relative path => some (descriptorAt files (project.folder / path))

/-- The nodes of an artifact in the tree. -/
def entriesOf (project : Project) (key : ArtifactKey) : List Report.Entry :=
  match project.tree with
  | none => []
  | some tree =>
    (tree.forest.find key).filterMap fun index => (tree.forest.nodes[index]?).map (·.entry)

/-- The version of an artifact in effect: the one in the merged view, else the one in the
tree. -/
def dependencyVersion? (project : Project) (key : ArtifactKey) : Option String :=
  let merged := do
    let view ← project.merged
    let dependency ← view.descriptor.dependency? key
    dependency.version
  merged <|> (project.entriesOf key).head?.map Report.Entry.effectiveVersion

/-- The different versions of an artifact in the tree, the newest first. Versions that count
as equal stay in report order. -/
def versionsInTree (project : Project) (key : ArtifactKey) : List String :=
  let versions := distinct ((project.entriesOf key).map Report.Entry.version)
  versions.mergeSort fun first second => Version.compare second first ≠ .gt
where
  /-- Each member once, where it stands first. -/
  distinct (versions : List String) : List String :=
    versions.foldl (fun kept version => if version ∈ kept then kept else kept ++ [version]) []

end Project

end PomLens
