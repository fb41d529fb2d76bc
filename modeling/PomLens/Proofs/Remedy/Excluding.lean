/-
This file proves that an excluding remedy writes one exclusion, and that it is found again.

As an edit of the element tree, excluding is less than pinning: in the first of the project's own
dependencies that declares the direct one, the list of exclusions gets a new first element, and is
made if it is missing. The edit is followed from the exclusion outwards (`exclude_in`,
`exclude_below`). Beside the outline it is kept what a lookup sees of the new pieces (`Excludes`,
`ExcludesBelow`): since the lookups for the direct dependency ask for its names only, and these
stay as they are, the same remedy for the new text comes to the new exclusion, and there is
nothing left to be done (`exclude_treeEdit`).
-/

import PomLens.Proofs.Remedy.Placing
import PomLens.Proofs.Report.Entries

namespace PomLens.Remedy

open Markup Markup.Piece
open Text (StandsAt blank)

variable {document : Document}

/-! ### The edit -/

/-- The list of exclusions with a new first one. -/
def withExclusion (key : ArtifactKey) (exclusions : Node) : Node :=
  exclusions.withChildren ((newExclusion key).node :: ·)

/-- The list of exclusions to be made where there is none. -/
def wholeExclusions (key : ArtifactKey) : Snippet :=
  .branch "exclusions" [newExclusion key]

/-- The dependency with one more exclusion. -/
def excluding (key : ArtifactKey) (dependency : Node) : Node :=
  dependency.changeChild "exclusions" (withExclusion key) (· ++ [(wholeExclusions key).node])

/-- The list of dependencies in which the first declaration of `root` has one more exclusion. -/
def excludingIn (root key : ArtifactKey) (dependencies : Node) : Node :=
  dependencies.withChildren
    (replaceFirst (declaring dependencies.name? root) fun declaration =>
      [excluding key declaration])

/-- The project that keeps `root` from pulling in the artifact. -/
def excluded (root key : ArtifactKey) (project : Node) : Node :=
  project.withChildren (replaceFirst (fun child => child.name? == some "dependencies")
    fun dependencies => [excludingIn root key dependencies])

/-! ### What a lookup sees -/

/-- The first list of exclusions in the dependency has one of the artifact. -/
def Excludes (key : ArtifactKey) (dependency : Piece) : Prop :=
  ∃ exclusions exclusion, dependency.inside.find? (isNamed "exclusions") = some exclusions ∧
    exclusions.inside.find? (isMatch "exclusion" (some "exclusions") key) = some exclusion

/-- The first of the project's own declarations of `root` excludes the artifact. -/
def ExcludesBelow (root key : ArtifactKey) (project : Piece) : Prop :=
  ∃ dependencies declaration, project.inside.find? (isNamed "dependencies") = some dependencies ∧
    dependencies.inside.find? (declares (some "dependencies") root) = some declaration ∧
    Excludes key declaration

section

variable {source : List Char} {offset : Nat} {piece : Piece} {node : Node}
  (isNode : IsNodeAt source offset piece node)
  (stands : StandsAt source offset (written [piece]))

include isNode stands

/-- The node of a piece that is found is found. -/
theorem exists_of_find? {pick : Node → Bool} {pickPiece : Piece → Bool}
    (picks : Picks pick pickPiece) {child : Piece}
    (found : piece.inside.find? pickPiece = some child) :
    ∃ place childNode, node.children.find? pick = some childNode ∧
      IsNodeAt source place child childNode ∧ StandsAt source place (written [child]) := by
  rcases isNode.find? stands picks with
    ⟨-, none⟩ | ⟨place, child', childNode, isFound, found', isChild, standsChild⟩
  · rw [none] at found
    cases found
  · obtain rfl := Option.some.inj (found'.symm.trans found)
    exact ⟨place, childNode, isFound, isChild, standsChild⟩

/-- There is nothing to be done where the artifact is excluded. -/
theorem excludeIn_of_excludes {key : ArtifactKey} (excludes : Excludes key piece)
    (document : Document) (style : Style) : excludeIn document node key style = .ok none := by
  obtain ⟨exclusions, exclusion, isList, isExclusion⟩ := excludes
  obtain ⟨place, list, foundList, isNodeList, standsList⟩ :=
    exists_of_find? isNode stands (Picks.named "exclusions") isList
  have named : list.name? = some "exclusions" :=
    isNodeList.name?.trans (isNamed_iff.mp (List.find?_some isList))
  obtain ⟨-, element, foundElement, -⟩ :=
    exists_of_find? isNodeList standsList (picks_matching "exclusion" (some "exclusions") key)
      isExclusion
  have foundList' : node.child? "exclusions" = some list := foundList
  have again : matchingChild? list "exclusion" key = some element := by
    rw [matchingChild?_eq, named, foundElement]
  simp [excludeIn, foundList', again, pure, Except.pure]

/-- The lookup for the direct dependency comes to the declaration that excludes. -/
theorem directDependency?_of_excludesBelow {root key : ArtifactKey}
    (excludes : ExcludesBelow root key piece) (document : Document) (style : Style) :
    ∃ declaration, directDependency? node root = some declaration ∧
      excludeIn document declaration.element key style = .ok none := by
  obtain ⟨dependencies, own, isList, isFirst, isExcluded⟩ := excludes
  obtain ⟨place, list, foundList, isNodeList, standsList⟩ :=
    exists_of_find? isNode stands (Picks.named "dependencies") isList
  have named : list.name? = some "dependencies" :=
    isNodeList.name?.trans (isNamed_iff.mp (List.find?_some isList))
  obtain ⟨place', element, foundElement, isOwn, standsOwn⟩ :=
    exists_of_find? isNodeList standsList (picks_declaring (some "dependencies") root) isFirst
  have foundList' : node.child? "dependencies" = some list := foundList
  have looked := element_directDependency? node root
  rw [foundList', Option.bind_some, named, foundElement] at looked
  obtain ⟨declaration, isDeclared, rfl⟩ := Option.map_eq_some_iff.mp looked
  exact ⟨declaration, isDeclared, excludeIn_of_excludes isOwn standsOwn isExcluded document style⟩

end

/-! ### The exclusion -/

/-- The names of an excluded artifact are tokens that begin no markup. -/
structure Excludable (key : ArtifactKey) : Prop where
  group : IsToken key.group
  artifact : IsToken key.artifact
  plainGroup : '<' ∉ key.group.toList
  plainArtifact : '<' ∉ key.artifact.toList

section

variable {key : ArtifactKey} {style : Style} (excludable : Excludable key)

include excludable

theorem legible_newExclusion : (newExclusion key).Legible := by
  simp only [newExclusion, Snippet.Legible, LegibleAll, and_true]
  exact ⟨by decide, ⟨by decide, excludable.plainGroup⟩, by decide, excludable.plainArtifact⟩

theorem legible_wholeExclusions : (wholeExclusions key).Legible := by
  simp only [wholeExclusions, Snippet.Legible, LegibleAll, and_true]
  exact ⟨by decide, legible_newExclusion excludable⟩

variable (regular : style.Regular)

include regular

/-- What is written is an exclusion of the artifact. -/
theorem isMatch_exclusion {base : String} (blankBase : blank base.toList = true) (level : Nat) :
    isMatch "exclusion" (some "exclusions") key
      ((newExclusion key).piece base style level) = true := by
  let values := [("groupId", key.group), ("artifactId", key.artifact)]
  have plain : ∀ entry ∈ values, plainName entry.1.toList := by
    simp only [values, List.forall_mem_cons]
    decide
  have tokens : ∀ entry ∈ values, IsToken entry.2 := by
    simp only [values, List.forall_mem_cons]
    exact ⟨excludable.group, excludable.artifact, by simp⟩
  have child := Snippet.childText?_branch regular blankBase plain tokens "exclusion" level
  have named := @Snippet.name?_branch "exclusion" (by decide)
  simp only [values, List.map_cons, List.map_nil] at child
  simp [isMatch, isNamed, declares, groupOf, newExclusion, named, child,
    DeclarationKind.of?]

/-! ### In the direct dependency -/

omit excludable regular in
/-- A declaration has two tags, since what it declares stands between them. -/
theorem exists_pair_of_declares {parent : Option String} {piece : Piece}
    (declared : declares parent key piece = true) :
    ∃ opening inside closing, piece = .pair opening inside closing := by
  cases piece with
  | pair opening inside closing => exact ⟨opening, inside, closing, rfl⟩
  | _ => simp [declares, Piece.childText?, Piece.inside] at declared

/-- One edit writes an exclusion of the artifact into a declaration, where a lookup finds it. The
other children stay as they are. -/
structure ExcludesOne (document : Document) (key : ArtifactKey) (offset : Nat) (piece : Piece)
    (node : Node) (edit : Edit) (piece' : Piece) : Prop where
  reworks : ∃ content, Reworks offset piece [edit] piece' content
  excludes : Excludes key piece'
  others : ∀ name, name ≠ "exclusions" → piece'.childText? name = piece.childText? name
  outline : outlineOf [excluding key node] = outline [piece']

section

variable {offset : Nat} {piece : Piece} {node : Node}
  (isNode : IsNodeAt document.chars offset piece node)
  (stands : StandsAt document.chars offset (written [piece])) (sound : Sound [piece])

include isNode stands sound

/-- Where there is no list of exclusions, one is made at the end. -/
theorem exclude_whole {parent : Option String} {root : ArtifactKey}
    (declared : declares parent root piece = true) (none : node.child? "exclusions" = none)
    {edit : Edit} (inserted : insertLast? document node (wholeExclusions key) style = some edit) :
    ∃ piece', ExcludesOne document key offset piece node edit piece' := by
  have legible := legible_wholeExclusions excludable
  obtain ⟨opening, inside, closing, rfl⟩ := exists_pair_of_declares declared
  obtain ⟨base, edit', piece', blankBase, inserted', reworks⟩ :=
    insertLast?_eq regular isNode stands sound legible
  obtain rfl := Option.some.inj (inserted'.symm.trans inserted)
  have named : ((wholeExclusions key).piece base style 1).name? = some "exclusions" :=
    Snippet.name?_branch (by decide) _ base style 1
  have noList : inside.find? (isNamed "exclusions") = Option.none := by
    rcases isNode.child? stands "exclusions" with ⟨-, notFound⟩ | ⟨_, _, _, isFound, -⟩
    · exact notFound
    · rw [isFound] at none
      cases none
  have within := Snippet.alike_inside regular blankBase "exclusions" [newExclusion key] 1
  refine ⟨piece', ⟨_, reworks⟩, ⟨(wholeExclusions key).piece base style 1,
    (newExclusion key).piece base style 2, ?_, ?_⟩, fun name different => ?_, ?_⟩
  · rw [reworks.content.find?, List.find?_append, noList, Option.none_or,
      List.find?_cons_of_pos (isNamed_iff.mpr named)]
  · rw [wholeExclusions, within.find?_pick (picks_matching _ _ key).noPiece, List.map_cons,
      List.find?_cons_of_pos (isMatch_exclusion excludable regular blankBase 2)]
  · have other := isNamed_eq_false named different.symm
    rw [Piece.childText?, reworks.content.find?, List.find?_append,
      List.find?_cons_of_neg (by simp [other]), List.find?_nil, Option.or_none]
    rfl
  · rw [excluding, Node.changeChild_of_none none]
    refine outline_reworked isNode reworks ?_
    rw [outlineOf_append, children_of_pair isNode,
      outlineOf_nodes_whole (enclosed_of_pair stands).standsAt, outline_append,
      Snippet.outline_piece regular blankBase 1 _ legible]

/-- In a list of exclusions, the new one is the first. -/
theorem exclude_first {exclusions : Node} (found : node.child? "exclusions" = some exclusions)
    {edit : Edit}
    (inserted : insertFirst? document exclusions (newExclusion key) style = some edit) :
    ∃ piece', ExcludesOne document key offset piece node edit piece' := by
  have legible := legible_newExclusion excludable
  obtain ⟨place, own, isFirst, isOwn, standsOwn, soundOwn, around⟩ :=
    reworks_first isNode stands sound (Picks.named "exclusions") found
  have named := isNamed_iff.mp (List.find?_some isFirst)
  obtain ⟨base, edit', own', blankBase, inserted', reworks⟩ :=
    insertFirst?_eq regular isOwn standsOwn soundOwn (by decide) named legible
  obtain rfl := Option.some.inj (inserted'.symm.trans inserted)
  obtain ⟨inner, children, within⟩ := isOwn.children standsOwn
  have same : outlineOf [withExclusion key exclusions] = outline [own'] := by
    refine outline_reworked isOwn reworks ?_
    rw [outlineOf_cons, children, outlineOf_nodes_whole within,
      outline_cons _ own.inside, Snippet.outline_piece regular blankBase 1 _ legible]
  obtain ⟨piece', whole, outline⟩ := around reworks same
  have named' := reworks.name.trans named
  refine ⟨piece', ⟨_, whole⟩, ⟨own', (newExclusion key).piece base style 1, ?_, ?_⟩,
    fun name different => ?_, ?_⟩
  · rw [whole.content.find?]
    exact find?_replaceFirst isFirst (isNamed_iff.mpr named')
  · rw [reworks.content.find?_pick (picks_matching _ _ key).noPiece,
      List.find?_cons_of_pos (isMatch_exclusion excludable regular blankBase 1)]
  · have distinct : ∀ found, isNamed "exclusions" found = true → isNamed name found = false :=
      fun found isList => isNamed_eq_false (isNamed_iff.mp isList) different.symm
    have other : [own'].filter (isNamed name) = [] := by
      simp [isNamed_eq_false named' different.symm]
    rw [Piece.childText?, whole.content.find?, ← List.head?_filter,
      filter_replaceFirst_of_ne distinct other, List.head?_filter, ← Piece.childText?]
  · rw [excluding, Node.changeChild_of_some found]
    exact outline

/-- In the declaration of the direct dependency, one exclusion is written. -/
theorem exclude_in {parent : Option String} {root : ArtifactKey}
    (declared : declares parent root piece = true) {set : EditSet}
    (computed : excludeIn document node key style = .ok (some set)) :
    ∃ edit piece', set = ⟨document.path, [edit]⟩ ∧
      ExcludesOne document key offset piece node edit piece' := by
  obtain ⟨edit, rfl, ⟨none, inserted⟩ | ⟨exclusions, found, -, inserted⟩⟩ :=
    exists_of_excludeIn computed
  · obtain ⟨piece', one⟩ :=
      exclude_whole excludable regular isNode stands sound declared none inserted
    exact ⟨edit, piece', rfl, one⟩
  · obtain ⟨piece', one⟩ := exclude_first excludable regular isNode stands sound found inserted
    exact ⟨edit, piece', rfl, one⟩

end

/-! ### In the project -/

/-- In the project, one exclusion is written into the first declaration of the direct
dependency, and a lookup for it finds the exclusion. -/
theorem exclude_below {offset : Nat} {piece : Piece} {project : Node}
    (isNode : IsNodeAt document.chars offset piece project)
    (stands : StandsAt document.chars offset (written [piece])) (sound : Sound [piece])
    {root : ArtifactKey} {declaration : Declaration}
    (isDeclared : directDependency? project root = some declaration) {set : EditSet}
    (computed : excludeIn document declaration.element key style = .ok (some set)) :
    ∃ edit piece' content, set = ⟨document.path, [edit]⟩ ∧
      Reworks offset piece [edit] piece' content ∧ ExcludesBelow root key piece' ∧
      outlineOf [excluded root key project] = outline [piece'] := by
  obtain ⟨dependencies, foundList, foundElement⟩ := exists_of_directDependency? isDeclared
  obtain ⟨_, list, isList, isNodeList, standsList, soundList, aroundList⟩ :=
    reworks_first isNode stands sound (Picks.named "dependencies") foundList
  have named := isNamed_iff.mp (List.find?_some isList)
  have nodeNamed : dependencies.name? = some "dependencies" := isNodeList.name?.trans named
  obtain ⟨_, own, isFirst, isOwn, standsOwn, soundOwn, around⟩ :=
    reworks_first isNodeList standsList soundList (picks_declaring dependencies.name? root)
      foundElement
  obtain ⟨edit, own', rfl, one⟩ :=
    exclude_in excludable regular isOwn standsOwn soundOwn (List.find?_some isFirst) computed
  obtain ⟨content, reworks⟩ := one.reworks
  obtain ⟨list', reworksList, sameInside⟩ := around reworks one.outline
  have sameList : outlineOf [excludingIn root key dependencies] = outline [list'] := sameInside
  obtain ⟨piece', whole, outline⟩ := aroundList reworksList sameList
  have declared : declares dependencies.name? root own' = true :=
    (declares_congr reworks.name (one.others "groupId" (by decide))
      (one.others "artifactId" (by decide)) _ _).trans (List.find?_some isFirst)
  refine ⟨edit, piece', _, rfl, whole, ⟨list', own', ?_, ?_, one.excludes⟩, outline⟩
  · rw [whole.content.find?]
    exact find?_replaceFirst isList (isNamed_iff.mpr (reworksList.name.trans named))
  · rw [← nodeNamed, reworksList.content.find?_pick (picks_declaring _ root).noPiece]
    exact find?_replaceFirst isFirst declared

end

/-! ### The number of projects -/

theorem namedIn_withChildren {name : String} {node : Node} {change : List Node → List Node}
    (same : namedIn name (outlineOf (change node.children)) =
      namedIn name (outlineOf node.children)) :
    namedIn name (outlineOf [node.withChildren change]) = namedIn name (outlineOf [node]) := by
  cases node with
  | text run => rfl
  | element tag children =>
    rw [namedIn_outlineOf_singleton, namedIn_outlineOf_singleton, Node.name?_withChildren]
    exact congrArg _ same

/-- No project is written in an exclusion. -/
theorem namedIn_wholeExclusions (key : ArtifactKey) :
    namedIn "project" (outlineOf [(wholeExclusions key).node]) = 0 := by
  simp [wholeExclusions, newExclusion, Snippet.node, nodesOf, outlineOf, Node.outline, namedIn]

theorem namedIn_excluding (key : ArtifactKey) (dependency : Node) :
    namedIn "project" (outlineOf [excluding key dependency]) =
      namedIn "project" (outlineOf [dependency]) := by
  rw [excluding]
  cases found : dependency.child? "exclusions" with
  | none =>
    rw [Node.changeChild_of_none found]
    refine namedIn_withChildren ?_
    rw [outlineOf_append, namedIn_append, namedIn_wholeExclusions, Nat.add_zero]
  | some exclusions =>
    rw [Node.changeChild_of_some found]
    refine namedIn_withChildren (namedIn_replaceFirst (fun list => ?_) _)
    refine namedIn_withChildren ?_
    have written := namedIn_wholeExclusions key
    rw [wholeExclusions, Snippet.node, outlineOf_element, namedIn, namedIn, nodesOf, nodesOf]
      at written
    rw [outlineOf_cons, namedIn_append]
    omega

/-- There are as many projects as before. -/
theorem namedIn_excluded (root key : ArtifactKey) (project : Node) :
    namedIn "project" (outlineOf [excluded root key project]) =
      namedIn "project" (outlineOf [project]) :=
  namedIn_withChildren (namedIn_replaceFirst (fun _ =>
    namedIn_withChildren (namedIn_replaceFirst (namedIn_excluding key) _)) _)

/-! ### The whole document -/

/-- Excluding is what is done in the declaration of the direct dependency. -/
theorem exclude_eq {forest : Report.Forest} {index : Nat} {node root : Report.Node}
    (isNode : forest.nodes[index]? = some node) (notDirect : node.root ≠ index)
    (isRoot : forest.nodes[node.root]? = some root) {project : Node}
    (computed : projectElement document = .ok project) {declaration : Declaration}
    (isDeclared : directDependency? project root.entry.key = some declaration) (style : Style) :
    exclude document forest index style =
      excludeIn document declaration.element node.entry.key style := by
  simp [exclude, excludeEntry, isNode, notDirect, isRoot, computed, isDeclared, bind, Except.bind]

/-- Excluding is a tree edit, and is done once. In a text without a byte order mark, if there is
anything to do for a node of a report, the edits can be made, the new text has a tree, and apart
from blanks that tree is the old one with one more exclusion in the declaration of the direct
dependency. For the new text there is nothing to be done. -/
theorem exclude_treeEdit (document : Document) (report : String) (forest : Report.Forest)
    (index : Nat) (node : Report.Node) (style : Style) (noMark : ¬ BeginsWithMark document.text)
    (parsed : Report.Forest.parse report = .ok forest)
    (isNode : forest.nodes[index]? = some node) (plainGroup : '<' ∉ node.entry.group.toList)
    (plainArtifact : '<' ∉ node.entry.artifact.toList) (regular : style.Regular) (set : EditSet)
    (computed : exclude document forest index style = .ok (some set)) :
    ∃ old root text new, Tree.parse document.text = .ok old ∧
      forest.nodes[node.root]? = some root ∧
      (directDependency? old.root root.entry.key).isSome ∧
      set.applyTo document.text = .ok text ∧ Tree.parse text = .ok new ∧
      new.root.outline = (excluded root.entry.key node.entry.key old.root).outline ∧
      exclude { document with text := text } forest index style = .ok none := by
  obtain ⟨node', root, project, declaration, isNode', notDirect, isRoot, isProject, isDeclared,
    writes⟩ := exists_of_exclude computed
  obtain rfl := Option.some.inj (isNode'.symm.trans isNode)
  have solid {field : String} (member : field ∈ node'.entry.fields) : IsToken field :=
    Report.Forest.solid_of_parse parsed isNode member
  have excludable : Excludable node'.entry.key :=
    ⟨solid (by simp [Report.Entry.fields, Report.Entry.key]),
      solid (by simp [Report.Entry.fields, Report.Entry.key]), plainGroup, plainArtifact⟩
  obtain ⟨parsedOld, one, named⟩ := projectElement_eq_ok_iff.mp isProject
  obtain ⟨old, sound, same, isRootNode, stands, soundRoot⟩ := exists_layout noMark parsedOld
  obtain ⟨edit, piece, _, rfl, reworks, excludes, outline⟩ :=
    exclude_below excludable regular isRootNode stands soundRoot isDeclared writes
  obtain ⟨new, after, soundNew, rfl, amends, parsedNew, isNodeNew⟩ :=
    exists_reparsed sound (by rw [← same]; exact noMark) reworks
  rw [← same] at amends
  have applied := @applyTo_of_amends ⟨document.path, [edit]⟩ _ _ _ amends (.refl _)
    (oneInsertion_singleton edit)
  have sameOutline : outlineOf [after] =
      outlineOf [excluded root.entry.key node'.entry.key project] :=
    (isNodeNew.outline (standsAt_root new)).trans outline.symm
  refine ⟨⟨project⟩, root, _, ⟨after⟩, parsedOld, isRoot, ?_, applied, parsedNew, ?_, ?_⟩
  · rw [isDeclared]
    rfl
  · simpa [outlineOf] using sameOutline
  · -- The new text has one project as well, and its pieces are those that the lookup asks.
    have nameNew : after.name? = some "project" := by
      rw [isNodeNew.name?, reworks.name, ← isRootNode.name?, named]
    have isProjectNew : projectElement
        { document with text := String.ofList (written new.pieces) } = .ok after :=
      projectElement_eq_ok_iff.mpr ⟨parsedNew, by rw [sameOutline, namedIn_excluded, one], nameNew⟩
    obtain ⟨again, isAgain, nothing⟩ := directDependency?_of_excludesBelow isNodeNew
      (standsAt_root new) excludes { document with text := String.ofList (written new.pieces) }
      style
    rw [exclude_eq isNode notDirect isRoot isProjectNew isAgain, nothing]

/-- What a dependency pulls in is excluded from it, and then there is nothing to be done. -/
theorem exclude_treeEdit_ownDeclaration :
    let report := "g:a:jar:1:compile\n\\- h:b:jar:1:compile\n"
    ∃ forest set old root text new, Report.Forest.parse report = .ok forest ∧
      exclude ownDeclaration forest 1 Style.standard = .ok (some set) ∧
      Tree.parse ownDeclaration.text = .ok old ∧
      (directDependency? old.root root).isSome ∧
      set.applyTo ownDeclaration.text = .ok text ∧ Tree.parse text = .ok new ∧
      new.root.outline = (excluded root ⟨"h", "b"⟩ old.root).outline ∧
      exclude { ownDeclaration with text := text } forest 1 Style.standard = .ok none := by
  intro report
  have run : (Report.Forest.parse report).toOption.map (fun forest =>
      (forest.nodes[1]?.map fun node => node.entry.key,
        (exclude ownDeclaration forest 1 Style.standard).toOption.map Option.isSome)) =
      some (some ⟨"h", "b"⟩, some true) := by decide +kernel
  cases parsed : Report.Forest.parse report with
  | error failure => simp [parsed, Except.toOption] at run
  | ok forest =>
    simp only [parsed, Except.toOption, Option.map_some, Option.some.injEq, Prod.mk.injEq] at run
    obtain ⟨node, isNode, isKey⟩ := Option.map_eq_some_iff.mp run.1
    cases computed : exclude ownDeclaration forest 1 Style.standard with
    | error failure => simp [computed] at run
    | ok written =>
      cases written with
      | none => simp [computed] at run
      | some set =>
        have isGroup : node.entry.group = "h" := congrArg ArtifactKey.group isKey
        have isArtifact : node.entry.artifact = "b" := congrArg ArtifactKey.artifact isKey
        obtain ⟨old, root, text, new, parsedOld, -, isDeclared, applied, parsedNew, outline,
            again⟩ :=
          exclude_treeEdit ownDeclaration report forest 1 node Style.standard noMark_ownDeclaration
            parsed isNode (by rw [isGroup]; decide +kernel) (by rw [isArtifact]; decide +kernel)
            Style.regular_standard set computed
        rw [isKey] at outline
        exact ⟨forest, set, old, root.entry.key, text, new, rfl, computed, parsedOld, isDeclared,
          applied, parsedNew, outline, again⟩

end PomLens.Remedy
