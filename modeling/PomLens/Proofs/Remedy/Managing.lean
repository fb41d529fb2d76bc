/-
This file follows the edits that write the managed dependency of a pinned artifact.

The new dependency goes to the front of the list of managed dependencies, and the first older one
on the artifact goes away (`manage_in_list`). If the list is missing, it is written into the
element that should hold it (`manage_in`). What the new list says is kept for the readers of
descriptors as `IsManagedList`.
-/

import PomLens.Proofs.Remedy.Dropping

namespace PomLens.Remedy

open Markup Markup.Piece
open Text (StandsAt blank)

variable {document : Document}

/-! ### The managed dependency -/

/-- What is written for a pinned artifact has plain names and values that begin no markup. -/
structure Writable (key : ArtifactKey) (version : String) : Prop where
  group : '<' ∉ key.group.toList
  artifact : '<' ∉ key.artifact.toList
  version : '<' ∉ version.toList

section

variable {key : ArtifactKey} {version : String} {style : Style}

theorem legible_managed (writable : Writable key version) :
    (managed key version).Legible := by
  simp only [managed, Snippet.Legible, LegibleAll, and_true]
  exact ⟨by decide, ⟨by decide, writable.group⟩, ⟨by decide, writable.artifact⟩, by decide,
    writable.version⟩

theorem legible_wrapped (writable : Writable key version) : (wrapped key version).Legible := by
  simp only [wrapped, Snippet.Legible, LegibleAll, and_true]
  exact ⟨by decide, legible_managed writable⟩

theorem legible_wholeManagement (writable : Writable key version) :
    (wholeManagement key version).Legible := by
  simp only [wholeManagement, Snippet.Legible, LegibleAll, and_true]
  exact ⟨by decide, legible_wrapped writable⟩

/-- The piece is a list of dependencies with a new one on the artifact at the front. Behind it
stand the older ones, without the first that managed the artifact. -/
structure IsManagedList (key : ArtifactKey) (version : String) (style : Style)
    (older : List Piece) (list : Piece) : Prop where
  element : list.isElement = true
  name : list.name? = some "dependencies"
  content : ∃ base level, blank base.toList = true ∧
    Alike list.inside ((managed key version).piece base style level ::
      replaceFirst (manages (some "dependencies") key) (fun _ => []) older)

variable (regular : style.Regular) (writable : Writable key version)

include regular writable

/-- In a list of dependencies, a new first one takes the place of the first on the artifact. -/
theorem manage_in_list {offset : Nat} {piece : Piece} {node : Node}
    (isNode : IsNodeAt document.chars offset piece node)
    (stands : StandsAt document.chars offset (written [piece])) (sound : Sound [piece])
    (named : piece.name? = some "dependencies") :
    ∃ older edit piece' content,
      Deletes document (node.children.find? (managing node.name? key)) older ∧
      NoInsertion older ∧
      insertFirst? document node (managed key version) style = some edit ∧
      Reworks offset piece (edit :: older) piece' content ∧
      IsManagedList key version style piece.inside piece' ∧
      outlineOf [withManaged key version node] = outline [piece'] := by
  have nodeName : node.name? = some "dependencies" := isNode.name?.trans named
  have legible := legible_managed writable
  cases piece with
  | single body =>
    have children := children_of_single isNode
    obtain ⟨base, edit, piece', blankBase, inserted, reworks⟩ :=
      insertFirst?_eq regular isNode stands sound (by decide) named legible
    refine ⟨[], edit, piece', _, by simp [Deletes, children], by simp [NoInsertion], inserted,
      reworks, ⟨reworks.element, reworks.name.trans named, base, 1, blankBase, ?_⟩,
      outline_reworked isNode reworks ?_⟩
    · simpa [inside, replaceFirst] using reworks.content
    · rw [children]
      exact (Snippet.outline_piece regular blankBase 1 _ legible).symm
  | pair opening inside closing =>
    obtain ⟨-, -, -, soundInside⟩ := sound_pair.mp sound
    have children := children_of_pair isNode
    obtain ⟨older, inside', deletes, noInsertion, amends, sound', alike, same⟩ :=
      delete_first (picks_managing node.name? key) (enclosed_of_pair stands) soundInside
    obtain ⟨base, edit, piece', blankBase, inserted, -, reworks⟩ :=
      insertFirst?_before regular isNode stands sound sound' amends legible
    have front := (Alike.refl [(managed key version).piece base style 1]).append alike
    rw [nodeName] at front
    refine ⟨older, edit, piece', _, by rwa [children], noInsertion, inserted, reworks,
      ⟨reworks.element, reworks.name.trans named, base, 1, blankBase, ?_⟩,
      outline_reworked isNode reworks ?_⟩
    · exact ⟨reworks.content.outline.trans front.outline,
        reworks.content.elements.trans front.elements⟩
    · rw [children, outlineOf_cons, same, outline_cons,
        Snippet.outline_piece regular blankBase 1 _ legible]
  | _ => exact absurd isNode.1 (by simp [isElement])

/-- What is written for an artifact that has no managed dependency, in an element that holds
none: the list of dependencies, or the element around it. -/
def WritesManaged (document : Document) (key : ArtifactKey) (version : String) (style : Style)
    (management : Node) (older : List Edit) (edit : Edit) : Prop :=
  match management.child? "dependencies" with
  | none => older = [] ∧
    insertFirst? document management (wrapped key version) style = some edit
  | some dependencies =>
    Deletes document (dependencies.children.find? (managing dependencies.name? key)) older ∧
      insertFirst? document dependencies (managed key version) style = some edit

/-- In the element that manages dependencies, the list of them gets a new first one, and is
made if it is missing. -/
theorem manage_in {offset : Nat} {piece : Piece} {node : Node}
    (isNode : IsNodeAt document.chars offset piece node)
    (stands : StandsAt document.chars offset (written [piece])) (sound : Sound [piece])
    (named : piece.name? = some "dependencyManagement") :
    ∃ older edit piece' content list,
      WritesManaged document key version style node older edit ∧ NoInsertion older ∧
      Reworks offset piece (edit :: older) piece' content ∧
      piece'.inside.find? (isNamed "dependencies") = some list ∧
      IsManagedList key version style
        (((piece.inside.find? (isNamed "dependencies")).map Piece.inside).getD []) list ∧
      outlineOf [node.changeChild "dependencies" (withManaged key version)
        ((wrapped key version).node :: ·)] = outline [piece'] := by
  obtain ⟨inner, children, within⟩ := isNode.children stands
  have listName (base : String) (level : Nat) :
      ((wrapped key version).piece base style level).name? = some "dependencies" :=
    Snippet.name?_branch (by decide) _ base style level
  rcases isNode.child? stands "dependencies" with
    ⟨none, notFound⟩ | ⟨-, -, dependencies, found, -⟩
  · have legible := legible_wrapped writable
    obtain ⟨base, edit, piece', blankBase, inserted, reworks⟩ :=
      insertFirst?_eq regular isNode stands sound (by decide) named legible
    have shown := outlineOf_nodes_whole within
    rw [← children] at shown
    refine ⟨[], edit, piece', _, (wrapped key version).piece base style 1, ?_,
      by simp [NoInsertion], reworks, ?_, ?_, ?_⟩
    · rw [WritesManaged, none]
      exact ⟨rfl, inserted⟩
    · rw [reworks.content.find?, List.find?_cons_of_pos]
      rw [isNamed, listName, beq_self_eq_true]
    · rw [notFound]
      exact ⟨rfl, listName base 1, base, 2, blankBase,
        Snippet.alike_inside regular blankBase "dependencies" [managed key version] 1⟩
    · rw [Node.changeChild_of_none none]
      refine outline_reworked isNode reworks ?_
      rw [outlineOf_cons, shown, outline_cons,
        Snippet.outline_piece regular blankBase 1 _ legible]
  · obtain ⟨place, own, isFirst, isOwn, standsOwn, soundOwn, around⟩ :=
      reworks_first isNode stands sound (Picks.named "dependencies") found
    obtain ⟨removed, edit, list, _, deletes, noInsertion, inserted, reworks, isList, same⟩ :=
      manage_in_list regular writable isOwn standsOwn soundOwn
        (isNamed_iff.mp (List.find?_some isFirst))
    obtain ⟨piece', whole, outline⟩ := around reworks same
    refine ⟨removed, edit, piece', _, list, ?_, noInsertion, whole, ?_, ?_, ?_⟩
    · rw [WritesManaged, found]
      exact ⟨deletes, inserted⟩
    · rw [whole.content.find?]
      exact find?_replaceFirst isFirst (isNamed_iff.mpr isList.name)
    · rw [isFirst]
      exact isList
    · rw [Node.changeChild_of_some found]
      exact outline

end

/-! ### The lookup of the managed dependency -/

/-- A matching child is looked for among all children. -/
theorem matchingChild?_eq (container : Node) (name : String) (key : ArtifactKey) :
    matchingChild? container name key =
      container.children.find? (matching name container.name? key) := by
  have same : (fun node => (Declaration.of? container.name? node).any fun declaration =>
      declaration.element.name? == some name && declaration.declares key) =
        matching name container.name? key := by
    funext node
    rw [matching, declaring]
    cases declared : Declaration.of? container.name? node with
    | none => simp
    | some declaration => simp [element_of? declared]
  rw [matchingChild?, find?_declarations, same]

theorem manage_eq {project management : Node} {key : ArtifactKey} {version : String} {style : Style}
    (found : project.child? "dependencyManagement" = some management) {older : List Edit}
    {edit : Edit} (writes : WritesManaged document key version style management older edit) :
    manage document project key version style = .ok (older ++ [edit]) := by
  rw [WritesManaged] at writes
  rw [manage, found, dependency_eq_managed]
  match inside : management.child? "dependencies" with
  | none =>
    rw [inside] at writes
    obtain ⟨rfl, inserted⟩ := writes
    have inserted' := inserted
    rw [wrapped] at inserted'
    simp [inside, inserted', orCut, pure, Except.pure, bind, Except.bind]
  | some dependencies =>
    rw [inside] at writes
    obtain ⟨deletes, inserted⟩ := writes
    have existing : matchingChild? dependencies "dependency" key =
        dependencies.children.find? (managing dependencies.name? key) :=
      matchingChild?_eq dependencies "dependency" key
    simp only [inside, existing]
    cases first : dependencies.children.find? (managing dependencies.name? key) with
    | none =>
      rw [first, Deletes] at deletes
      subst deletes
      simp [inserted, orCut, pure, Except.pure, bind, Except.bind]
    | some existing =>
      rw [first, Deletes] at deletes
      obtain ⟨removed, deleted, rfl⟩ := deletes
      simp [deleted, inserted, orCut, pure, Except.pure, bind, Except.bind]

theorem manage_eq_of_none {project : Node} {key : ArtifactKey} {version : String} {style : Style}
    (notFound : project.child? "dependencyManagement" = none) {edit : Edit}
    (inserted : insertLast? document project (wholeManagement key version) style = some edit) :
    manage document project key version style = .ok [edit] := by
  rw [wholeManagement, wrapped] at inserted
  simp [manage, notFound, dependency_eq_managed, inserted, orCut, pure, Except.pure, bind, Except.bind]

end PomLens.Remedy
