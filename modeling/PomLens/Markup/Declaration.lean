/-
This file finds the elements of a descriptor that declare an artifact.

Three elements do: a dependency, a plugin, and an exclusion directly inside a list of
exclusions. Each names its artifact by child elements; a plugin without a group has the
standard one. A declaration is looked up in document order at any depth, so the first
element that names the artifact is the one found.
-/

import PomLens.Artifact
import PomLens.Markup.Place

namespace PomLens.Markup

/-- The group of a plugin that names none. -/
def standardPluginGroup : String := "org.apache.maven.plugins"

inductive DeclarationKind
  | dependency
  | plugin
  | exclusion
  deriving DecidableEq, Repr

/-- An element that declares an artifact. -/
structure Declaration where
  kind : DeclarationKind
  element : Node

/-- The spans of a declaration, without its tree. -/
structure DeclarationSpans where
  kind : DeclarationKind
  /-- The whole element. -/
  element : Span
  group : Option Span
  artifact : Option Span
  version : Option Span
  deriving DecidableEq, Repr

/-- What an element of this name declares, inside an element of the name `parent`. -/
def DeclarationKind.of? (parent name : Option String) : Option DeclarationKind :=
  match name with
  | some "dependency" => some .dependency
  | some "plugin" => some .plugin
  | some "exclusion" => if parent = some "exclusions" then some .exclusion else none
  | _ => none

namespace Declaration

/-- The element as a declaration, if it is one inside an element of the name `parent`. -/
def of? (parent : Option String) (element : Node) : Option Declaration :=
  (DeclarationKind.of? parent element.name?).map (⟨·, element⟩)

/-- The declared group, the standard one for a plugin that names none. -/
def group? (declaration : Declaration) : Option String :=
  match declaration.element.childText? "groupId" with
  | some group => some group
  | none => if declaration.kind = .plugin then some standardPluginGroup else none

/-- The declared artifact name. -/
def artifact? (declaration : Declaration) : Option String :=
  declaration.element.childText? "artifactId"

/-- The element that holds the declared version. -/
def versionElement? (declaration : Declaration) : Option Node :=
  declaration.element.child? "version"

/-- The declared version. -/
def version? (declaration : Declaration) : Option String :=
  declaration.element.childText? "version"

/-- The declaration names this artifact. -/
def declares (declaration : Declaration) (key : ArtifactKey) : Bool :=
  declaration.group? == some key.group && declaration.artifact? == some key.artifact

/-- The spans of the element and of the texts that name its artifact. -/
def spans (declaration : Declaration) : DeclarationSpans :=
  let textSpan (name : String) := (declaration.element.child? name).map Node.textSpan
  ⟨declaration.kind, declaration.element.range, textSpan "groupId", textSpan "artifactId",
    textSpan "version"⟩

end Declaration

/-- The declaration that stands at a place. -/
def Place.declaration? (place : Place) : Option Declaration :=
  Declaration.of? (place.parent? >>= fun outer => outer.node.name?) place.node

/-- All declarations of a tree in document order. -/
def Tree.declarations (tree : Tree) : List Declaration :=
  tree.places.filterMap Place.declaration?

/-- The first declaration of an artifact. -/
def Tree.declarationOf? (tree : Tree) (key : ArtifactKey) : Option Declaration :=
  tree.declarations.find? fun declaration => declaration.declares key

/-- The declarations among the children of an element. -/
def Node.declarations (container : Node) : List Declaration :=
  container.children.filterMap (Declaration.of? container.name?)

/-- The spans of the first declaration of an artifact in a text. Text that is not one
element has none. -/
def findDeclaration? (text : String) (key : ArtifactKey) : Option DeclarationSpans :=
  match Tree.parse text with
  | .error _ => none
  | .ok tree => (tree.declarationOf? key).map Declaration.spans

end PomLens.Markup
