/-
This file defines a workspace: the projects that are known, in the order in which they were
first registered.

A project is registered under its normalized path, and there is at most one for each path,
so any spelling of the path finds it. Registering another project at a path puts it in the
place of the old one.
-/

import PomLens.Project

namespace PomLens

structure Workspace where
  projects : List Project
  deriving DecidableEq, Repr

namespace Workspace

/-- A workspace without projects. -/
def empty : Workspace :=
  ⟨[]⟩

/-- The project registered at a path, in any spelling. -/
def get? (workspace : Workspace) (path : Path) : Option Project :=
  workspace.projects.find? fun project => project.path == path.normalize

/-- The number of projects. -/
def size (workspace : Workspace) : Nat :=
  workspace.projects.length

/-- The paths of the projects. -/
def paths (workspace : Workspace) : List Path :=
  workspace.projects.map Project.path

/-- The projects with one more, which takes the place of the one at its path. -/
def place (added : Project) : List Project → List Project
  | [] => [added]
  | project :: rest =>
    if project.path = added.path then added :: rest else project :: place added rest

/-- Registers a project, and gives the one whose place it took. -/
def insert (workspace : Workspace) (project : Project) : Workspace × Option Project :=
  (⟨place project workspace.projects⟩,
    workspace.projects.find? fun other => other.path == project.path)

/-- Registers projects one after another. -/
def insertAll (workspace : Workspace) (projects : List Project) : Workspace :=
  projects.foldl (fun workspace project => (workspace.insert project).1) workspace

/-- Creates, reads and registers the project at a path. One whose descriptor cannot be read
is registered too, so that a later edit can mend it. -/
def add (workspace : Workspace) (files : FileTree) (path : Path) : Workspace × Project :=
  let project := ((Project.new path).reload files).1
  ((workspace.insert project).1, project)

/-- Takes the project at a path out of the registry. -/
def remove (workspace : Workspace) (path : Path) : Workspace × Option Project :=
  (⟨workspace.projects.filter fun project => project.path ≠ path.normalize⟩, workspace.get? path)

/-- Takes all projects under a folder out of the registry, and says how many these were. -/
def removeUnder (workspace : Workspace) (folder : Path) : Workspace × Nat :=
  let kept : Workspace :=
    ⟨workspace.projects.filter fun project => !project.path.startsWith folder.normalize⟩
  (kept, workspace.size - kept.size)

/-- Changes the project registered at a path, if there is one. -/
def update (workspace : Workspace) (path : Path) (change : Project → Project) : Workspace :=
  ⟨workspace.projects.map fun project =>
    if project.path = path.normalize then change project else project⟩

end Workspace

end PomLens
