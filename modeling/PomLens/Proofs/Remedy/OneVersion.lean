/-
This file says when pinning an artifact leaves one version of it.

A descriptor that is read from the new text lists the pinned version first. What else it says of
the artifact is what was not removed: pinning takes away one managed dependency and one version,
so the descriptor declares one version if and only if there were no more
(`pin_declaresOne_iff`).
-/

import PomLens.Proofs.Descriptor.Dependencies
import PomLens.Proofs.Remedy.Pinning

namespace PomLens.Remedy

open Markup Markup.Piece
open Text (StandsAt blank)

/-! ### One version -/

/-- The descriptor manages the artifact once, at this version, and its own dependencies on it say
no version. -/
structure DeclaresOne (descriptor : Descriptor) (key : ArtifactKey) (version : String) : Prop where
  managed : (descriptor.managedDependencies.filter fun dependency => dependency.declares key).map
    DeclaredDependency.version = [some version]
  own : ∀ dependency ∈ descriptor.dependencies, dependency.declares key = true →
    dependency.version = none

/-- The declarations of the artifact in the list of the project's own dependencies. -/
def ownDeclarations (key : ArtifactKey) (project : Node) : List Node :=
  ((project.child? "dependencies").map fun dependencies =>
    dependencies.children.filter (declaring (some "dependencies") key)).getD []

/-- No more is said of the artifact than pinning takes away: one managed dependency, and the first
version in the first of the project's own declarations. -/
structure HasOneToDrop (key : ArtifactKey) (project : Node) : Prop where
  managed : ((Descriptor.ofElement project).managedDependencies.filter fun dependency =>
    dependency.declares key).length ≤ 1
  first : ∀ first others, ownDeclarations key project = first :: others →
    first.name? = some "dependency" → (first.elementsNamed "version")[1]? >>= Node.text? = none
  others : ∀ first others, ownDeclarations key project = first :: others →
    ∀ other ∈ others, other.name? = some "dependency" → other.childText? "version" = none

/-- The names and the version of an artifact are tokens that begin no markup. -/
structure Nameable (key : ArtifactKey) (version : String) : Prop where
  writable : Writable key version
  group : IsToken key.group
  artifact : IsToken key.artifact
  version : IsToken version

/-! ### Reading the new lists -/

/-- A piece is a managed dependency on an artifact if it is read as a dependency on it. -/
theorem manages_eq (key : ArtifactKey) (piece : Piece) :
    manages (some "dependencies") key piece =
      (piece.isNamed "dependency" && piece.dependency.declares key) := by
  rw [manages]
  cases named : piece.isNamed "dependency" with
  | false => rfl
  | true =>
    rw [isNamed, beq_iff_eq] at named
    rw [declares, named, Bool.true_and, Bool.true_and]
    simp only [DeclarationKind.of?, Option.any_some, groupOf, dependency,
      DeclaredDependency.declares]
    cases piece.childText? "groupId" <;> simp

theorem filter_dependencies (key : ArtifactKey) (pieces : List Piece) :
    (dependencies pieces).filter (fun dependency => dependency.declares key) =
      (pieces.filter (manages (some "dependencies") key)).map dependency := by
  rw [dependencies, List.filter_map, List.filter_filter]
  refine congrArg _ (List.filter_congr fun piece _ => ?_)
  rw [manages_eq, Bool.and_comm]
  rfl

/-- A written dependency is read as what was written. -/
theorem dependency_snippet {key : ArtifactKey} {version : String} (nameable : Nameable key version)
    {base : String} {style : Style} (regular : style.Regular) (blankBase : blank base.toList = true)
    (level : Nat) :
    ((managed key version).piece base style level).dependency =
      ⟨some key.group, some key.artifact, some version, none, none, none⟩ := by
  let values := [("groupId", key.group), ("artifactId", key.artifact), ("version", version)]
  have plain : ∀ entry ∈ values, plainName entry.1.toList := by
    simp only [values, List.forall_mem_cons]
    decide
  have tokens : ∀ entry ∈ values, IsToken entry.2 := by
    simp only [values, List.forall_mem_cons]
    exact ⟨nameable.group, nameable.artifact, nameable.version, by simp⟩
  have child := Snippet.childText?_branch regular blankBase plain tokens "dependency" level
  simp only [values, List.map_cons, List.map_nil] at child
  simp [dependency, managed, child]

/-! ### Reading a project -/

/-- What is inside the list of the project's own dependencies, if there is one. -/
def ownIn (content : List Piece) : List Piece :=
  ((content.find? (isNamed "dependencies")).map Piece.inside).getD []

section

variable {source : List Char} {offset : Nat} {piece : Piece} {node : Node}
  (isNode : IsNodeAt source offset piece node)
  (stands : StandsAt source offset (written [piece]))

include isNode stands

/-- The own dependencies of a project are read from the list of them. -/
theorem dependencies_eq :
    (Descriptor.ofElement node).dependencies = dependencies (ownIn piece.inside) := by
  rw [Descriptor.ofElement, ownIn]
  rcases isNode.child? stands "dependencies" with
    ⟨noNode, noPiece⟩ | ⟨_, list, listNode, some, found, isList, standsList⟩
  · rw [noNode, noPiece]
    rfl
  · rw [some, found]
    exact isList.dependenciesIn standsList

/-- The managed dependencies of a project are read from the list of them. -/
theorem managedDependencies_eq :
    (Descriptor.ofElement node).managedDependencies = dependencies (managedIn piece.inside) := by
  rw [Descriptor.ofElement, managedIn]
  rcases isNode.child? stands "dependencyManagement" with
    ⟨noNode, noPiece⟩ | ⟨_, management, managementNode, some, found, isManagement, standsIn⟩
  · rw [noNode, noPiece]
    rfl
  · rw [some, found]
    simp only [Option.bind_eq_bind, Option.bind_some]
    rcases isManagement.child? standsIn "dependencies" with
      ⟨noNode, noPiece⟩ | ⟨_, list, listNode, some, found, isList, standsList⟩
    · rw [noNode, noPiece]
      rfl
    · rw [some, found]
      exact isList.dependenciesIn standsList

/-- What is read of the own declarations can be read of the pieces. -/
theorem map_ownDeclarations {β : Type} (key : ArtifactKey) {read : Node → β}
    {readPiece : Piece → β}
    (same : ∀ {offset piece node}, IsNodeAt source offset piece node →
      StandsAt source offset (written [piece]) → read node = readPiece piece) :
    (ownDeclarations key node).map read =
      ((ownIn piece.inside).filter (declares (some "dependencies") key)).map readPiece := by
  rw [ownDeclarations, ownIn]
  rcases isNode.child? stands "dependencies" with
    ⟨noNode, noPiece⟩ | ⟨_, list, listNode, some, found, isList, standsList⟩
  · rw [noNode, noPiece]
    rfl
  · obtain ⟨inner, children, within⟩ := isList.children standsList
    rw [some, found, Option.map_some, Option.map_some, Option.getD_some, Option.getD_some, children]
    exact (picks_declaring (Option.some "dependencies") key).map_filter same within

end

/-! ### What is left of the own versions -/

/-- The name of a declaration and the texts of its versions. -/
abbrev Reading := Option String × List (Option String)

/-- No dependency says a version when the first declaration has lost its first one. -/
def NothingLeft : List Reading → Prop
  | [] => True
  | first :: others =>
    (first.1 = some "dependency" → first.2[1]?.join = none) ∧
      ∀ other ∈ others, other.1 = some "dependency" → other.2[0]?.join = none

def reading (node : Node) : Reading :=
  (node.name?, (node.elementsNamed "version").map Node.text?)

def readingPiece (piece : Piece) : Reading :=
  (piece.name?, piece.childTexts "version")

theorem nothingLeft_iff (declarations : List Node) :
    NothingLeft (declarations.map reading) ↔
      (∀ first others, declarations = first :: others → first.name? = some "dependency" →
        (first.elementsNamed "version")[1]? >>= Node.text? = none) ∧
      ∀ first others, declarations = first :: others →
        ∀ other ∈ others, other.name? = some "dependency" → other.childText? "version" = none := by
  have second (node : Node) : (reading node).2[1]?.join =
      ((node.elementsNamed "version")[1]? >>= Node.text?) := by
    rw [reading, List.getElem?_map]
    cases (node.elementsNamed "version")[1]? <;> rfl
  have only (node : Node) : (reading node).2[0]?.join = node.childText? "version" := by
    rw [reading, List.getElem?_map, ← List.head?_eq_getElem?, Node.elementsNamed, List.head?_filter,
      Node.childText?, Node.child?]
    cases node.children.find? _ <;> rfl
  cases declarations with
  | nil => simp [NothingLeft]
  | cons first others =>
    simp only [List.map_cons, NothingLeft, List.forall_mem_map, second, only, List.cons.injEq]
    refine and_congr ⟨?_, fun left => left first others ⟨rfl, rfl⟩⟩
      ⟨?_, fun left => left first others ⟨rfl, rfl⟩⟩
    · rintro left _ _ ⟨rfl, rfl⟩
      exact left
    · rintro left _ _ ⟨rfl, rfl⟩
      exact left

/-- An element that has lost its first version has the others, and its other children. -/
theorem childTexts_dropped {changed declaration : Piece}
    (alike : Alike changed.inside
      (replaceFirst (isNamed "version") (fun _ => []) declaration.inside)) :
    changed.childTexts "version" = (declaration.childTexts "version").tail ∧
      ∀ name, name ≠ "version" → changed.childText? name = declaration.childText? name := by
  refine ⟨?_, fun name different => ?_⟩
  · rw [childTexts, alike.filter (Picks.named "version").noPiece, filter_replaceFirst, childTexts,
      List.map_tail]
  · have distinct : ∀ found, isNamed "version" found = true → isNamed name found = false := by
      intro found isVersion
      rw [isNamed, beq_iff_eq] at isVersion
      rw [isNamed, isVersion]
      simpa using different.symm
    rw [childText?_eq, childText?_eq, childTexts, alike.filter (Picks.named name).noPiece,
      filter_replaceFirst_of_ne distinct List.filter_nil, childTexts]

theorem manages_of_not_declares {key : ArtifactKey} {piece : Piece}
    (other : declares (some "dependencies") key piece = false) :
    manages (some "dependencies") key piece = false := by
  rw [manages, other, Bool.and_false]

/-- The declaration that has lost its first version says none exactly if it had no second. -/
theorem changedLeft_iff {key : ArtifactKey} {changed declaration : Piece}
    (declared : declares (some "dependencies") key declaration = true)
    (sameName : changed.name? = declaration.name?)
    (lost : Alike changed.inside
      (replaceFirst (isNamed "version") (fun _ => []) declaration.inside)) :
    (manages (some "dependencies") key changed = true → changed.childText? "version" = none) ↔
      (declaration.name? = some "dependency" →
        (declaration.childTexts "version")[1]?.join = none) := by
  obtain ⟨texts, sameText⟩ := childTexts_dropped lost
  have same : declares (some "dependencies") key changed = true := by
    rw [← declared]
    exact declares_congr sameName (sameText "groupId" (by decide))
      (sameText "artifactId" (by decide)) _ _
  rw [manages, same, Bool.and_true, isNamed, beq_iff_eq, sameName, childText?_eq, texts,
    List.getElem?_tail]

/-- The other declarations say no version exactly if they had no first. -/
theorem othersLeft_iff (key : ArtifactKey) (others : List Piece) :
    (∀ piece ∈ others, manages (some "dependencies") key piece = true →
        piece.childText? "version" = none) ↔
      ∀ piece ∈ others.filter (declares (some "dependencies") key),
        piece.name? = some "dependency" → (piece.childTexts "version")[0]?.join = none := by
  simp only [List.mem_filter, manages, isNamed, Bool.and_eq_true, beq_iff_eq, childText?_eq]
  exact forall_congr' fun piece => by tauto

/-- The own dependencies say no version of the artifact exactly if nothing was left. -/
theorem own_iff {key : ArtifactKey} {before after : Option Piece}
    (dropped : OwnDropped key before after) :
    (∀ piece ∈ ((after.map Piece.inside).getD []).filter (manages (some "dependencies") key),
        piece.childText? "version" = none) ↔
      NothingLeft ((((before.map Piece.inside).getD []).filter
        (declares (some "dependencies") key)).map readingPiece) := by
  cases before with
  | none =>
    cases after with
    | none => simp [NothingLeft]
    | some list => exact dropped.elim
  | some list =>
    cases after with
    | none => exact dropped.elim
    | some list' =>
      obtain ⟨changed, alike, isChanged⟩ := dropped
      rw [Option.map_some, Option.getD_some, Option.map_some, Option.getD_some,
        alike.filter (picks_managing (some "dependencies") key).noPiece]
      match found : list.inside.find? (declares (some "dependencies") key) with
      | none =>
        have others : ∀ piece ∈ list.inside, declares (some "dependencies") key piece = false := by
          simpa using List.find?_eq_none.mp found
        have noneManaged : list.inside.filter (manages (some "dependencies") key) = [] :=
          List.filter_eq_nil_iff.mpr fun piece member => by
            simp [manages_of_not_declares (others piece member)]
        have noneDeclared : list.inside.filter (declares (some "dependencies") key) = [] :=
          List.filter_eq_nil_iff.mpr fun piece member => by simp [others piece member]
        rw [replaceFirst_of_none others, noneManaged, noneDeclared]
        simp [NothingLeft]
      | some declaration =>
        obtain ⟨-, sameName, lost⟩ := isChanged declaration found
        obtain ⟨isDeclared, first, rest, whole, before⟩ := List.find?_eq_some_iff_append.mp found
        have before' : ∀ piece ∈ first, declares (some "dependencies") key piece = false := by
          simpa using before
        have noneManaged : ∀ piece ∈ first, manages (some "dependencies") key piece = true →
            piece.childText? "version" = none := by
          intro piece member isManaged
          rw [manages_of_not_declares (before' piece member)] at isManaged
          cases isManaged
        have noneDeclared : first.filter (declares (some "dependencies") key) = [] :=
          List.filter_eq_nil_iff.mpr fun piece member => by simp [before' piece member]
        rw [List.forall_mem_filter, whole, replaceFirst_of_find? before' isDeclared,
          List.append_assoc, List.singleton_append, List.forall_mem_append, List.forall_mem_cons,
          changedLeft_iff isDeclared sameName lost, othersLeft_iff key rest, List.filter_append,
          noneDeclared, List.nil_append, List.filter_cons_of_pos isDeclared, List.map_cons, NothingLeft,
          List.forall_mem_map]
        exact and_iff_right noneManaged

/-! ### What is left of the managed dependencies -/

/-- In the new list of managed dependencies, the pinned version stands before what was left. -/
theorem managed_iff {key : ArtifactKey} {version : String} {style : Style}
    (regular : style.Regular) (nameable : Nameable key version) {older : List Piece} {list : Piece}
    (isList : IsManagedList key version style older list) :
    ((dependencies list.inside).filter fun dependency => dependency.declares key).map
        DeclaredDependency.version = [some version] ↔
      ((dependencies older).filter fun dependency => dependency.declares key).length ≤ 1 := by
  obtain ⟨base, level, blankBase, alike⟩ := isList.content
  have read := dependency_snippet nameable regular blankBase level
  have isNew : manages (some "dependencies") key
      ((managed key version).piece base style level) = true := by
    have named := @Snippet.name?_branch "dependency" (by decide)
    rw [manages_eq, read, DeclaredDependency.declares, managed, isNamed, named]
    simp
  rw [filter_dependencies, filter_dependencies,
    alike.filter (picks_managing (some "dependencies") key).noPiece,
    List.filter_cons_of_pos isNew, filter_replaceFirst, List.map_cons, List.map_cons, read,
    List.length_map]
  simp only [List.cons.injEq, true_and, List.map_eq_nil_iff]
  rw [← List.length_eq_zero_iff, List.length_tail]
  omega

/-- Something is written only for a project element, and only to change its version. -/
theorem of_pin_eq_some {document : Document} {key : ArtifactKey} {effective chosen : String}
    {style : Style} {set : EditSet}
    (computes : pin document key effective chosen style = .ok (some set)) :
    chosen ≠ effective ∧ ∃ project, projectElement document = .ok project := by
  have different : chosen ≠ effective := by
    intro same
    simp [pin, same, pure, Except.pure] at computes
  refine ⟨different, ?_⟩
  cases computed : projectElement document with
  | error failure => simp [pin, different, computed, bind, Except.bind] at computes
  | ok project => exact ⟨project, rfl⟩

/-- The descriptor of the new text declares one version if there was one to drop. -/
theorem Pins.declaresOne_iff {document : Document} {key : ArtifactKey} {version : String}
    {style : Style} {set : EditSet} {old new : Layout} {before after : Node}
    (pins : Pins document key version style set old new before after) (regular : style.Regular)
    (nameable : Nameable key version) :
    ∃ descriptor, Descriptor.parse (String.ofList (written new.pieces)) = .ok descriptor ∧
      (DeclaresOne descriptor key version ↔ HasOneToDrop key before) := by
  have root : after.name? = some "project" := pins.isNode'.name?.trans pins.named'
  have parsed : Descriptor.parse (String.ofList (written new.pieces)) =
      .ok (Descriptor.ofElement after) := by
    simp [Descriptor.parse, Descriptor.rootElement, pins.reparsed, root, pure, Except.pure, bind,
      Except.bind]
  obtain ⟨management, list, foundManagement, foundList, isList⟩ := pins.content.managed
  have newList : managedIn new.root.inside = list.inside := by
    rw [managedIn, foundManagement, Option.bind_some, foundList]
    rfl
  have managed := managed_iff regular nameable isList
  rw [← newList, ← managedDependencies_eq pins.isNode' (standsAt_root new),
    ← managedDependencies_eq pins.isNode (standsAt_root old)] at managed
  have declarations : (ownDeclarations key before).map reading =
      ((ownIn old.root.inside).filter (declares (some "dependencies") key)).map readingPiece := by
    refine map_ownDeclarations pins.isNode (standsAt_root old) key fun isChild standsChild => ?_
    rw [reading, readingPiece, isChild.name?, isChild.childTexts standsChild]
  have own : (∀ dependency ∈ (Descriptor.ofElement after).dependencies,
      dependency.declares key = true → dependency.version = none) ↔
        NothingLeft ((ownDeclarations key before).map reading) := by
    rw [declarations, ownIn, ← own_iff pins.content.own, ← ownIn,
      dependencies_eq pins.isNode' (standsAt_root new), ← List.forall_mem_filter,
      filter_dependencies, List.forall_mem_map]
    rfl
  refine ⟨_, parsed, fun one => ?_, fun one => ?_⟩
  · obtain ⟨first, others⟩ := (nothingLeft_iff _).mp (own.mp one.own)
    exact ⟨managed.mp one.managed, first, others⟩
  · exact ⟨managed.mpr one.managed, own.mpr ((nothingLeft_iff _).mpr ⟨one.first, one.others⟩)⟩

/-- Pinning leaves one version of an artifact if and only if it had one managed dependency and
one own version to take away. -/
theorem pin_declaresOne_iff (document : Document) (key : ArtifactKey) (effective chosen : String)
    (style : Style) (noMark : ¬ BeginsWithMark document.text) (nameable : Nameable key chosen)
    (regular : style.Regular) (set : EditSet)
    (computes : pin document key effective chosen style = .ok (some set)) :
    ∃ old text descriptor, Tree.parse document.text = .ok old ∧
      set.applyTo document.text = .ok text ∧ Descriptor.parse text = .ok descriptor ∧
      (DeclaresOne descriptor key chosen ↔ HasOneToDrop key old.root) := by
  obtain ⟨different, project, computed⟩ := of_pin_eq_some computes
  obtain ⟨_, old, new, after, computes', pins⟩ :=
    exists_pins regular nameable.writable noMark computed different
  rw [computes', Except.ok.injEq, Option.some.injEq] at computes
  subst computes
  obtain ⟨descriptor, parsed, same⟩ := pins.declaresOne_iff regular nameable
  exact ⟨⟨project⟩, _, descriptor, pins.parsed, pins.applied, parsed, same⟩

/-- Single letters name an artifact and its version. -/
theorem nameable_letters : Nameable ⟨"g", "a"⟩ "2" where
  writable := ⟨by decide +kernel, by decide +kernel, by decide +kernel⟩
  group := by decide +kernel
  artifact := by decide +kernel
  version := by decide +kernel

/-- The project in which an artifact is declared once and nothing is managed has one version to
drop. -/
theorem hasOneToDrop_ownDeclaration {tree : Tree}
    (parsed : Tree.parse ownDeclaration.text = .ok tree) : HasOneToDrop ⟨"g", "a"⟩ tree.root := by
  have counts : (Tree.parse ownDeclaration.text).toOption.map (fun tree =>
      (((Descriptor.ofElement tree.root).managedDependencies.filter fun dependency =>
          dependency.declares ⟨"g", "a"⟩).length,
        (ownDeclarations ⟨"g", "a"⟩ tree.root).map fun declaration =>
          (declaration.elementsNamed "version").length)) = some (0, [1]) := by decide +kernel
  rw [parsed] at counts
  simp only [Except.toOption, Option.map_some, Option.some.injEq, Prod.mk.injEq] at counts
  obtain ⟨managed, own⟩ := counts
  refine ⟨by omega, fun first others whole _ => ?_, fun first others whole => ?_⟩
  · rw [whole, List.map_cons, List.cons.injEq] at own
    rw [List.getElem?_eq_none (by omega)]
    rfl
  · rw [whole, List.map_cons, List.cons.injEq, List.map_eq_nil_iff] at own
    simp [own.2]

theorem pin_declaresOne_ownDeclaration :
    ∃ set text descriptor,
      pin ownDeclaration ⟨"g", "a"⟩ "1" "2" Style.standard = .ok (some set) ∧
      set.applyTo ownDeclaration.text = .ok text ∧ Descriptor.parse text = .ok descriptor ∧
      DeclaresOne descriptor ⟨"g", "a"⟩ "2" := by
  obtain ⟨set, computes, -⟩ := pin_ownDeclaration
  obtain ⟨old, text, descriptor, parsed, applied, read, same⟩ :=
    pin_declaresOne_iff ownDeclaration ⟨"g", "a"⟩ "1" "2" Style.standard noMark_ownDeclaration
      nameable_letters Style.regular_standard set computes
  exact ⟨set, text, descriptor, computes, applied, read,
    same.mpr (hasOneToDrop_ownDeclaration parsed)⟩

/-- A project that manages an artifact twice. -/
def managedTwice : Document where
  path := ⟨"/ws/pom.xml"⟩
  text := "<project><dependencyManagement><dependencies>\n" ++
    "<dependency><groupId>g</groupId><artifactId>a</artifactId><version>1</version></dependency>\n" ++
    "<dependency><groupId>g</groupId><artifactId>a</artifactId><version>3</version></dependency>\n" ++
    "</dependencies></dependencyManagement></project>"

/-- The second managed dependency outlives the pinning. -/
theorem pin_managedTwice :
    ∃ set text descriptor,
      pin managedTwice ⟨"g", "a"⟩ "1" "2" Style.standard = .ok (some set) ∧
      set.applyTo managedTwice.text = .ok text ∧ Descriptor.parse text = .ok descriptor ∧
      ¬ DeclaresOne descriptor ⟨"g", "a"⟩ "2" := by
  have noMark : ¬ BeginsWithMark managedTwice.text := by
    unfold BeginsWithMark
    decide +kernel
  have managed : (projectElement managedTwice).toOption.map (fun project =>
      ((Descriptor.ofElement project).managedDependencies.filter fun dependency =>
        dependency.declares ⟨"g", "a"⟩).length) = some 2 := by decide +kernel
  match computed : projectElement managedTwice with
  | .error failure =>
    rw [computed] at managed
    cases managed
  | .ok project =>
    rw [computed] at managed
    simp only [Except.toOption, Option.map_some, Option.some.injEq] at managed
    obtain ⟨set, _, new, _, computes, pins⟩ :=
      @exists_pins managedTwice _ "2" _ Style.regular_standard nameable_letters.writable noMark _
        computed "1" (by decide)
    obtain ⟨descriptor, parsed, same⟩ :=
      pins.declaresOne_iff Style.regular_standard nameable_letters
    refine ⟨set, _, descriptor, computes, pins.applied, parsed, fun one => ?_⟩
    have := (same.mp one).managed
    omega

end PomLens.Remedy
