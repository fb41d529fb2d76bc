/-
This file answers what an editor asks about a place in a document: what version is in effect
there, and which descriptors the place refers to.

A reference is made by a dependency, a plugin, a parent or a module. The first three name
their artifact by child elements, and a question about such a child is a question about the
element around it.
-/

import PomLens.Document
import PomLens.Repository
import PomLens.Workspace.Inheritance

namespace PomLens

open Markup (Node Tree Place Declaration)

/-! ### The element asked about -/

/-- The artifact that an element names. A plugin without a group has the standard one. -/
def namedArtifact? (place : Place) : Option ArtifactKey :=
  match place.declaration? with
  | some declaration => do some ⟨← declaration.group?, ← declaration.artifact?⟩
  | none => do
    some ⟨← place.node.childText? "groupId", ← place.node.childText? "artifactId"⟩

/-- The names of the elements that name an artifact or its version. -/
def isCoordinateTag (name : String) : Bool :=
  name == "groupId" || name == "artifactId" || name == "version"

/-- The dependency, plugin or parent of whose coordinates one lies at an offset. -/
def coordinateOwner? (tree : Tree) (offset : Nat) : Option Place := do
  let place ← tree.locate? offset
  let tag ← place.enclosingTag?
  let name ← tag.node.name?
  if !isCoordinateTag name then none
  else do
    let owner ← tag.parent?
    let ownerName ← owner.node.name?
    if ["dependency", "plugin", "parent"].contains ownerName then some owner else none

/-! ### Hovering -/

/-- What is shown for an element, and where the element stands. -/
structure Hover where
  text : String
  range : PositionRange
  deriving DecidableEq, Repr

/-- The coordinates of the dependency, plugin or parent at an offset, with the version in
effect. -/
def hover? (document : Document) (project : Project) (offset : Nat) : Option Hover := do
  let tree ← (Tree.parse document.text).toOption
  let owner ← coordinateOwner? tree offset
  let key ← namedArtifact? owner
  let version ←
    if owner.node.name? = some "parent" then owner.node.childText? "version"
    else project.dependencyVersion? key
  let text :=
    s!"groupId = {key.group}\n\nartifactId = {key.artifact}\n\nversion = {version}"
  some ⟨text, document.rangeOf owner.node.range⟩

/-! ### Going to definitions -/

/-- A descriptor that a place refers to. -/
structure Target where
  /-- The element that makes the reference. -/
  origin : Span
  path : Path
  deriving DecidableEq, Repr

/-- What a reference is resolved against. -/
structure Surroundings where
  files : FileTree
  workspace : Workspace
  repository : Option Repository

/-- The descriptors of the parent: the registered one, else the one on disk, else the one in
the repository. -/
def parentTargets (project : Project) (surroundings : Surroundings) (parent : Place) :
    List Path :=
  let files := surroundings.files
  match surroundings.workspace.parentOf? files project with
  | some registered => [registered.path]
  | none =>
    match (project.parentPath? files).filter files.isFile with
    | some path => [path]
    | none =>
      let cached : Option Path := do
        let repository ← surroundings.repository
        let key ← namedArtifact? parent
        let version ← parent.node.childText? "version"
        some (repository.descriptorPath key version)
      (cached.filter files.isFile).toList

/-- The descriptors of an artifact in the repository: that of the version in effect if it is
there, else those of all versions. -/
def dependencyTargets (project : Project) (surroundings : Surroundings) (element : Place) :
    List Path :=
  match surroundings.repository, namedArtifact? element with
  | some repository, some key =>
    let version := project.dependencyVersion? key <|> element.node.childText? "version"
    match (version.map (repository.descriptorPath key)).filter surroundings.files.isFile with
    | some path => [path]
    | none => repository.cachedDescriptors surroundings.files key
  | _, _ => []

/-- The descriptors that an element with a recognised name refers to. -/
def targetsOf (project : Project) (surroundings : Surroundings) (tag : Place) : List Target :=
  let name := tag.node.name?.getD ""
  if name = "module" then
    match tag.node.text? with
    | none => []
    | some path =>
      [⟨tag.node.range, descriptorIn surroundings.files (project.folder / path)⟩]
  else
    match if isCoordinateTag name then tag.parent? else some tag with
    | none => []
    | some owner =>
      let paths :=
        match owner.node.name? with
        | some "parent" => parentTargets project surroundings owner
        | some "dependency" | some "plugin" => dependencyTargets project surroundings owner
        | _ => []
      paths.map fun path => ⟨owner.node.range, path⟩

/-- The descriptors that the place at an offset refers to. -/
def definition (document : Document) (project : Project) (surroundings : Surroundings)
    (offset : Nat) : List Target :=
  match Tree.parse document.text with
  | .error _ => []
  | .ok tree =>
    match tree.locate? offset >>= Place.enclosingTag? with
    | none => []
    | some tag => targetsOf project surroundings tag

end PomLens
