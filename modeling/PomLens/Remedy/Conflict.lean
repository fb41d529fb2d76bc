/-
This file computes the edits that remedy a dependency conflict.

There are two remedies. Pinning fixes the version of an artifact for the whole project, in
the list of managed dependencies, and takes away whatever version the project's own
dependency names. Excluding keeps the direct dependency that pulled an artifact in from
doing so. Both work on descriptors with exactly one `project` element, and both say when
nothing is left to be done.
-/

import PomLens.Markup.Declaration
import PomLens.Remedy.Snippet
import PomLens.Report.Forest

namespace PomLens

open Markup (Node Tree MarkupError Declaration)
open Report (Forest)

/-- Why a remedy cannot be computed. -/
inductive RemedyError
  | markup (error : MarkupError)
  /-- The number of `project` elements is not one, or the one is not the root. -/
  | projectCount (count : Nat)
  /-- No direct dependency declares the artifact. -/
  | notDeclared (key : ArtifactKey)
  /-- A direct dependency does not pull itself in. -/
  | directDependency (key : ArtifactKey)
  /-- A span that has to be read starts or ends inside a character. -/
  | cutCharacter
  deriving DecidableEq, Repr

def RemedyError.message : RemedyError → String
  | .markup error => error.message
  | .projectCount count => s!"expected exactly one <project> element, found {count}"
  | .notDeclared key => s!"no direct dependency declares {key.render}"
  | .directDependency key => s!"{key.render} is declared directly and cannot be excluded"
  | .cutCharacter => "a span cuts a character of the text"

namespace Remedy

/-- A change that cannot be computed because a span cuts a character. -/
def orCut {α : Type} : Option α → Except RemedyError α
  | some value => return value
  | none => throw .cutCharacter

/-- The project element of a document, which must be its only one and its root. -/
def projectElement (document : Document) : Except RemedyError Node := do
  match Tree.parse document.text with
  | .error error => throw (.markup error)
  | .ok tree =>
    let count := (tree.places.filter fun place => place.node.name? == some "project").length
    if count ≠ 1 ∨ tree.root.name? ≠ some "project" then throw (.projectCount count)
    else return tree.root

/-- The first of a project's own dependencies that declares an artifact. -/
def directDependency? (project : Node) (key : ArtifactKey) : Option Declaration := do
  let dependencies ← project.child? "dependencies"
  dependencies.declarations.find? fun declaration => declaration.declares key

/-- The first child of this name that declares an artifact. -/
def matchingChild? (container : Node) (name : String) (key : ArtifactKey) : Option Node :=
  let found := container.declarations.find? fun declaration =>
    declaration.element.name? == some name && declaration.declares key
  found.map Declaration.element

/-! ### Pinning -/

/-- Takes the version away from a project's own dependency on an artifact. -/
def dropOwnVersion (document : Document) (project : Node) (key : ArtifactKey) :
    Except RemedyError (List Edit) :=
  match directDependency? project key >>= Declaration.versionElement? with
  | none => return []
  | some version => return [← orCut (delete? document version)]

/-- Writes the managed dependency that pins an artifact, in place of an older one. Elements
that should hold it and are missing are written around it. -/
def manage (document : Document) (project : Node) (key : ArtifactKey) (version : String)
    (style : Style) : Except RemedyError (List Edit) := do
  let managed := Snippet.dependency key version
  let wrapped := Snippet.branch "dependencies" [managed]
  match project.child? "dependencyManagement" with
  | none =>
    let whole := Snippet.branch "dependencyManagement" [wrapped]
    return [← orCut (insertLast? document project whole style)]
  | some management =>
    match management.child? "dependencies" with
    | none => return [← orCut (insertFirst? document management wrapped style)]
    | some dependencies =>
      let older ←
        match matchingChild? dependencies "dependency" key with
        | none => pure []
        | some existing => pure [← orCut (delete? document existing)]
      return older ++ [← orCut (insertFirst? document dependencies managed style)]

/-- Pins an artifact to the version `chosen`. Nothing is to be done if that version is the
one in effect. -/
def pin (document : Document) (key : ArtifactKey) (effective chosen : String)
    (style : Style) : Except RemedyError (Option EditSet) := do
  if chosen = effective then return none
  let project ← projectElement document
  let dropped ← dropOwnVersion document project key
  let written ← manage document project key chosen style
  return some ⟨document.path, dropped ++ written⟩

/-! ### Excluding -/

/-- Writes an exclusion into the element of a dependency. -/
def excludeIn (document : Document) (element : Node) (key : ArtifactKey) (style : Style) :
    Except RemedyError (Option EditSet) := do
  let exclusion := Snippet.exclusion key
  match element.child? "exclusions" with
  | none =>
    let wrapped := Snippet.branch "exclusions" [exclusion]
    return some ⟨document.path, [← orCut (insertLast? document element wrapped style)]⟩
  | some exclusions =>
    if (matchingChild? exclusions "exclusion" key).isSome then return none
    else
      return some ⟨document.path, [← orCut (insertFirst? document exclusions exclusion style)]⟩

/-- Excludes the artifact of a node from the direct dependency above it, both as the report
names them. -/
def excludeEntry (document : Document) (root excluded : ArtifactKey) (style : Style) :
    Except RemedyError (Option EditSet) := do
  let project ← projectElement document
  match directDependency? project root with
  | none => throw (.notDeclared root)
  | some declaration => excludeIn document declaration.element excluded style

/-- Excludes a node of the forest from the direct dependency above it. Nothing is to be done
if that is declared already. A number that is no node's has nothing to exclude. -/
def exclude (document : Document) (forest : Forest) (index : Nat) (style : Style) :
    Except RemedyError (Option EditSet) := do
  let some node := forest.nodes[index]? | return none
  if node.root = index then throw (.directDependency node.entry.key)
  let some root := forest.nodes[node.root]? | return none
  excludeEntry document root.entry.key node.entry.key style

end Remedy

end PomLens
