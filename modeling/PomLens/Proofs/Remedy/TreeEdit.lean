/-
This file states pinning as an edit of the element tree.

The edit says nothing of texts or spans: the version of the project's own dependency is left
out, and the list of managed dependencies gets a new first element in place of an older one. An
element that should hold what is new and is missing is made, and the list of children it is put
into says where. Places in the result mean nothing; only its outline does.
-/

import PomLens.Proofs.Remedy.Writing
import PomLens.Remedy.Conflict

namespace PomLens

namespace Markup

/-- The node with other children. Text has none. -/
def Node.withChildren (change : List Node → List Node) : Node → Node
  | .text run => .text run
  | .element tag children => .element tag (change children)

/-- The node with its first child of this name changed. If there is none, `absent` says what
becomes of the children. -/
def Node.changeChild (name : String) (change : Node → Node) (absent : List Node → List Node)
    (node : Node) : Node :=
  node.withChildren fun children =>
    match children.find? fun child => child.name? == some name with
    | none => absent children
    | some _ =>
      replaceFirst (fun child => child.name? == some name) (fun child => [change child]) children

theorem Node.changeChild_of_none {name : String} {node : Node} (none : node.child? name = none)
    (change : Node → Node) (absent : List Node → List Node) :
    node.changeChild name change absent = node.withChildren absent := by
  cases node with
  | text run => rfl
  | element tag children =>
    have notFound : children.find? (fun child => child.name? == some name) = Option.none := none
    simp only [Node.changeChild, Node.withChildren, notFound]

theorem Node.changeChild_of_some {name : String} {node child : Node}
    (found : node.child? name = some child) (change : Node → Node)
    (absent : List Node → List Node) :
    node.changeChild name change absent = node.withChildren
      (replaceFirst (fun child => child.name? == some name) fun child => [change child]) := by
  cases node with
  | text run => rfl
  | element tag children =>
    have isFound : children.find? (fun child => child.name? == some name) = some child := found
    simp only [Node.changeChild, Node.withChildren, isFound]

@[simp] theorem Node.name?_withChildren (change : List Node → List Node) (node : Node) :
    (node.withChildren change).name? = node.name? := by
  cases node <;> rfl

theorem Node.outline_withChildren {node : Node} {name : String} (named : node.name? = some name)
    (change : List Node → List Node) :
    outlineOf [node.withChildren change] = [.element name (outlineOf (change node.children))] := by
  cases node with
  | text run => cases named
  | element tag children =>
    obtain rfl : tag.name = name := by simpa [Node.name?] using named
    exact outlineOf_element tag (change children)

end Markup

namespace Remedy

open Markup Markup.Piece
open Text (StandsAt)

/-! ### What is picked and what is left out -/

/-- The node is a declaration of the artifact, inside an element of the name `parent`. -/
def declaring (parent : Option String) (key : ArtifactKey) (node : Node) : Bool :=
  (Declaration.of? parent node).any fun declaration => declaration.declares key

/-- The node is a declaration of the artifact that has this name. -/
def matching (name : String) (parent : Option String) (key : ArtifactKey) (node : Node) : Bool :=
  node.name? == some name && declaring parent key node

/-- The node is a managed dependency on the artifact. -/
def managing (parent : Option String) (key : ArtifactKey) (node : Node) : Bool :=
  node.name? == some "dependency" && declaring parent key node

/-- The element without its first version. -/
def withoutVersion (element : Node) : Node :=
  element.withChildren (replaceFirst (fun child => child.name? == some "version") fun _ => [])

/-- The list of dependencies in which the first declaration of the artifact has lost its first
version. -/
def withoutOwnVersion (key : ArtifactKey) (dependencies : Node) : Node :=
  dependencies.withChildren
    (replaceFirst (declaring dependencies.name? key) fun declaration =>
      [withoutVersion declaration])

/-- The project without its own version of the artifact. -/
def withoutOwn (key : ArtifactKey) (project : Node) : Node :=
  project.withChildren (replaceFirst (fun child => child.name? == some "dependencies")
    fun dependencies => [withoutOwnVersion key dependencies])

/-! ### What is new -/

/-- The managed dependency that is to stand there: it says the group, the artifact and the
version. -/
def managed (key : ArtifactKey) (version : String) : Snippet :=
  .branch "dependency"
    [.leaf "groupId" key.group, .leaf "artifactId" key.artifact, .leaf "version" version]

/-- The exclusion that is to stand there: it says the group and the artifact. -/
def newExclusion (key : ArtifactKey) : Snippet :=
  .branch "exclusion" [.leaf "groupId" key.group, .leaf "artifactId" key.artifact]

/-- That is what the remedies write. -/
theorem dependency_eq_managed (key : ArtifactKey) (version : String) :
    Snippet.dependency key version = managed key version := rfl

theorem exclusion_eq_newExclusion (key : ArtifactKey) :
    Snippet.exclusion key = newExclusion key := rfl

/-! ### The edit -/

/-- The list of dependencies with a new first one in place of the first on the artifact. -/
def withManaged (key : ArtifactKey) (version : String) (dependencies : Node) : Node :=
  dependencies.withChildren fun children =>
    (managed key version).node ::
      replaceFirst (managing dependencies.name? key) (fun _ => []) children

/-- The list of dependencies to be made where there is none. -/
def wrapped (key : ArtifactKey) (version : String) : Snippet :=
  .branch "dependencies" [managed key version]

/-- What is to be made where no dependencies are managed at all. -/
def wholeManagement (key : ArtifactKey) (version : String) : Snippet :=
  .branch "dependencyManagement" [wrapped key version]

/-- The project with the artifact pinned to a version. -/
def pinned (key : ArtifactKey) (version : String) (project : Node) : Node :=
  (withoutOwn key project).changeChild "dependencyManagement"
    (Node.changeChild "dependencies" (withManaged key version) ((wrapped key version).node :: ·))
    (· ++ [(wholeManagement key version).node])

/-- The children of the project with the artifact pinned to a version. -/
def pinnedChildren (key : ArtifactKey) (version : String) (children : List Node) : List Node :=
  let dropped := replaceFirst (fun child => child.name? == some "dependencies")
    (fun dependencies => [withoutOwnVersion key dependencies]) children
  match dropped.find? fun child => child.name? == some "dependencyManagement" with
  | none => dropped ++ [(wholeManagement key version).node]
  | some _ =>
    replaceFirst (fun child => child.name? == some "dependencyManagement")
      (fun management => [management.changeChild "dependencies" (withManaged key version)
        ((wrapped key version).node :: ·)]) dropped

theorem pinned_eq (key : ArtifactKey) (version : String) (project : Node) :
    pinned key version project = project.withChildren (pinnedChildren key version) := by
  cases project <;> rfl

/-! ### The same choices among pieces -/

/-- The group that a declaration of some kind names. -/
def groupOf (kind : DeclarationKind) (piece : Piece) : Option String :=
  match piece.childText? "groupId" with
  | some group => some group
  | none => if kind = .plugin then some standardPluginGroup else none

/-- The piece is a declaration of the artifact, inside an element of the name `parent`. -/
def declares (parent : Option String) (key : ArtifactKey) (piece : Piece) : Bool :=
  (DeclarationKind.of? parent piece.name?).any fun kind =>
    groupOf kind piece == some key.group && piece.childText? "artifactId" == some key.artifact

/-- The piece is a declaration of the artifact that has this name. -/
def isMatch (name : String) (parent : Option String) (key : ArtifactKey) (piece : Piece) : Bool :=
  piece.isNamed name && declares parent key piece

/-- The piece is a managed dependency on the artifact. -/
def manages (parent : Option String) (key : ArtifactKey) (piece : Piece) : Bool :=
  piece.isNamed "dependency" && declares parent key piece

/-- What a piece declares is said by its name and by its group and artifact. -/
theorem declares_congr {piece piece' : Piece} (name : piece'.name? = piece.name?)
    (group : piece'.childText? "groupId" = piece.childText? "groupId")
    (artifact : piece'.childText? "artifactId" = piece.childText? "artifactId")
    (parent : Option String) (key : ArtifactKey) :
    declares parent key piece' = declares parent key piece := by
  simp only [declares, groupOf, name, group, artifact]

theorem group?_eq {source : List Char} {offset : Nat} {piece : Piece} {node : Node}
    (isNode : IsNodeAt source offset piece node) (stands : StandsAt source offset (written [piece]))
    (kind : DeclarationKind) : (Declaration.mk kind node).group? = groupOf kind piece := by
  have same := isNode.childText? stands "groupId"
  cases found : piece.childText? "groupId" with
  | none => simp [Declaration.group?, groupOf, same, found]
  | some group => simp [Declaration.group?, groupOf, same, found]

theorem picks_declaring (parent : Option String) (key : ArtifactKey) :
    Picks (declaring parent key) (declares parent key) := by
  refine ⟨fun node isText => ?_, fun piece noElement => ?_, fun {_ _ piece node} isNode stands => ?_⟩
  · cases node with
    | text run => rfl
    | element tag children => cases isText
  · have noName : piece.name? = none := by
      cases piece <;> simp_all [isElement, Piece.name?]
    rw [declares, noName]
    rfl
  · rw [declaring, declares, Declaration.of?, isNode.name?]
    cases DeclarationKind.of? parent piece.name? with
    | none => rfl
    | some kind =>
      rw [Option.map_some, Option.any_some, Option.any_some, Declaration.declares,
        group?_eq isNode stands, Declaration.artifact?, isNode.childText? stands]

theorem picks_matching (name : String) (parent : Option String) (key : ArtifactKey) :
    Picks (matching name parent key) (isMatch name parent key) := by
  have named := Picks.named name
  have declared := picks_declaring parent key
  refine ⟨fun node isText => ?_, fun piece noElement => ?_, fun isNode stands => ?_⟩
  · rw [matching, declared.noText node isText, Bool.and_false]
  · rw [isMatch, declared.noPiece piece noElement, Bool.and_false]
  · rw [matching, isMatch, declared.same isNode stands, ← named.same isNode stands]

theorem picks_managing (parent : Option String) (key : ArtifactKey) :
    Picks (managing parent key) (manages parent key) :=
  picks_matching "dependency" parent key

/-! ### Outlines of changed lists -/

/-- What replaces an element among nodes replaces its outline. -/
theorem outlineOf_replaceFirst {source : List Char} {pick : Node → Bool} {pickPiece : Piece → Bool}
    (picks : Picks pick pickPiece) (change : Node → List Node) {inner : Nat} {first rest : List Piece}
    {piece : Piece} {node : Node}
    (stands : StandsAt source inner (written (first ++ piece :: rest)))
    (noneBefore : ∀ other ∈ first, pickPiece other = false) (picked : pickPiece piece = true)
    (isNode : IsNodeAt source (inner + Text.size (written first)) piece node) :
    outlineOf (replaceFirst pick change (nodes source inner inner (first ++ piece :: rest))) =
      outline first ++ outlineOf (change node) ++ outline rest := by
  rw [written_append, written_cons piece rest] at stands
  have before := outlineOf_nodes_whole stands.left
  have behind := outlineOf_nodes_whole stands.right.right
  have place : inner + Text.size (written (first ++ [piece])) =
      inner + Text.size (written first) + Text.size (written [piece]) := by
    rw [written_append, Text.size_append, Nat.add_assoc]
  rw [nodes_around inner isNode rest,
    replaceFirst_of_find? (picks.none_of_nodes stands.left noneBefore)
      (by rw [picks.same isNode stands.right.left, picked]),
    outlineOf_append, outlineOf_append, place, before, behind]

end Remedy

end PomLens
