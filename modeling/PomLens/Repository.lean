/-
This file lays out the local repository, where the build tool keeps the artifacts that it
has fetched.

The descriptor of an artifact lies under the steps of its group, its name and its version.
The parts are joined as paths are, so a part that is itself an absolute path leads away from
the repository.
-/

import PomLens.Artifact
import PomLens.FileTree
import PomLens.Settings

namespace PomLens

structure Repository where
  root : Path
  deriving DecidableEq, Repr

namespace Repository

/-- The repository in the place that the settings give, else the usual one. -/
def locate (environment : Environment) (configured : Option Path) : Repository :=
  ⟨configured.getD (environment.home / ".m2" / "repository")⟩

/-- The folder of all versions of an artifact. -/
def artifactFolder (repository : Repository) (key : ArtifactKey) : Path :=
  let steps := (Text.splitOn (· == '.') key.group.toList).map String.ofList
  steps.foldl (fun (folder : Path) step => folder / step) repository.root / key.artifact

/-- The descriptor of a version of an artifact. -/
def descriptorPath (repository : Repository) (key : ArtifactKey) (version : String) : Path :=
  repository.artifactFolder key / version / s!"{key.artifact}-{version}.pom"

/-- The descriptors of all versions of an artifact that are there, in the order of their
paths. -/
def cachedDescriptors (repository : Repository) (files : FileTree) (key : ArtifactKey) :
    List Path :=
  (((files.foldersIn (repository.artifactFolder key)).map
    (repository.descriptorPath key)).filter files.isFile).mergeSort Path.le

end Repository

end PomLens
