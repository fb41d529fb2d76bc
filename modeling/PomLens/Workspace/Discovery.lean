/-
This file finds the projects of a folder and links modules to the projects that list them.

A descriptor is a file whose path, seen from the folder, matches the settings' glob and none
of the globs of paths to be left out. What is found is registered unless it is already, and
each project found for the first time is linked to its modules.
-/

import PomLens.Glob.Match
import PomLens.Settings
import PomLens.Workspace.Registry

namespace PomLens

/-- A setting that is no glob. -/
structure PatternError where
  pattern : String
  fault : Glob.Fault
  deriving DecidableEq, Repr

def PatternError.message (error : PatternError) : String :=
  s!"invalid discovery pattern `{error.pattern}`: error parsing glob '{error.pattern}': {error.fault.message}"

/-- Reads one glob of the settings. -/
def readPattern (pattern : String) : Except PatternError (List Glob.Token) :=
  match Glob.parse pattern with
  | .error fault => throw ⟨pattern, fault⟩
  | .ok tokens => return tokens

/-- The descriptors under a folder, in the order of their paths. -/
def findDescriptors (files : FileTree) (folder : Path) (settings : DiscoverySettings) :
    Except PatternError (List Path) := do
  let included ← readPattern settings.pattern
  let excluded ← settings.exclude.mapM readPattern
  let chosen := (files.filesBelow folder).filter fun path =>
    Glob.isMatch included path.text &&
      !excluded.any fun pattern => Glob.isMatch pattern path.text
  return (chosen.map fun path => (folder.join path).normalize).mergeSort Path.le

namespace Workspace

/-- Records a project as the parent of the modules that it lists, where none is recorded. -/
def linkModules (workspace : Workspace) (files : FileTree) (project : Project) : Workspace :=
  (project.modules files).foldl
    (fun workspace path =>
      workspace.update path fun listed => (listed.linkParent project.path).1)
    workspace

/-- Registers the descriptors under a folder that are not registered, links the modules of
those, and gives the paths of all that were found. -/
def discover (workspace : Workspace) (files : FileTree) (folder : Path)
    (settings : DiscoverySettings) : Except PatternError (Workspace × List Path) := do
  let found ← findDescriptors files folder settings
  let created := (found.filter fun path => (workspace.get? path).isNone).map fun path =>
    ((Project.new path).reload files).1
  let registered := workspace.insertAll created
  return (created.foldl (fun linked project => linked.linkModules files project) registered,
    found)

end Workspace

end PomLens
