/-
This file proves that the edits of a pinning remedy make the tree edit.

The project's own dependency and the managed one are looked for in different children of the
project, and the edits for each stay inside that child. The two are put side by side in the
order in which they stand (`pin_managed`); where no dependencies are managed, what is to manage
them is written behind everything else (`pin_unmanaged`). The edits of the whole text are those
of its root element, so the text they make is parsed into the tree that the edit of the old one
gives (`pin_treeEdit`).
-/

import PomLens.Proofs.Markup.Counting
import PomLens.Proofs.Markup.Layout
import PomLens.Proofs.Outcome
import PomLens.Proofs.Remedy.Managing

namespace PomLens.Remedy

open Markup Markup.Piece
open Text (StandsAt blank)

variable {document : Document}

/-! ### The whole project -/

/-- What is inside the list of managed dependencies, if there is one. -/
def managedIn (content : List Piece) : List Piece :=
  (((content.find? (isNamed "dependencyManagement")).bind fun management =>
    management.inside.find? (isNamed "dependencies")).map Piece.inside).getD []

/-- What is inside the project before and after the artifact is pinned. -/
structure PinnedContent (key : ArtifactKey) (version : String) (style : Style)
    (content content' : List Piece) : Prop where
  own : OwnDropped key (content.find? (isNamed "dependencies"))
    (content'.find? (isNamed "dependencies"))
  managed : ∃ management list, content'.find? (isNamed "dependencyManagement") = some management ∧
    management.inside.find? (isNamed "dependencies") = some list ∧
    IsManagedList key version style (managedIn content) list

theorem OwnDropped.or {key : ArtifactKey} {before after : Option Piece}
    (dropped : OwnDropped key before after) {found : Piece} (some : before = some found)
    (other other' : Option Piece) : OwnDropped key (before.or other) (after.or other') := by
  subst some
  cases after with
  | none => exact dropped.elim
  | some after => exact dropped

/-- Dropping the own version leaves no element of another name that was not there. -/
theorem none_of_dropped {key : ArtifactKey} {children : List Node}
    (none : ∀ node ∈ children, (node.name? == some "dependencyManagement") = false) :
    ∀ node ∈ replaceFirst (fun child => child.name? == some "dependencies")
        (fun dependencies => [withoutOwnVersion key dependencies]) children,
      (node.name? == some "dependencyManagement") = false := by
  intro node member
  rcases mem_replaceFirst member with old | ⟨found, picked, new⟩
  · exact none node old
  · rw [List.mem_singleton] at new
    rw [new, withoutOwnVersion, Node.name?_withChildren, beq_iff_eq.mp picked]
    decide

theorem pinnedChildren_around {key : ArtifactKey} {version : String}
    {children first rest : List Node} {node : Node}
    (dropped : replaceFirst (fun child => child.name? == some "dependencies")
      (fun dependencies => [withoutOwnVersion key dependencies]) children = first ++ node :: rest)
    (before : ∀ other ∈ first, (other.name? == some "dependencyManagement") = false)
    (named : (node.name? == some "dependencyManagement") = true) :
    pinnedChildren key version children = first ++ [node.changeChild "dependencies"
      (withManaged key version) ((wrapped key version).node :: ·)] ++ rest := by
  have found : (first ++ node :: rest).find?
      (fun child => child.name? == some "dependencyManagement") = some node :=
    List.find?_eq_some_iff_append.mpr
      ⟨named, first, rest, rfl, fun other member => by simp [before other member]⟩
  rw [pinnedChildren, dropped, found]
  exact replaceFirst_of_find? before named _

section

variable {key : ArtifactKey} {version : String} {style : Style}

/-- The edits for the managed dependency stand in the first of the project's children that
manages dependencies. -/
structure ManagesIn (document : Document) (key : ArtifactKey) (version : String) (style : Style)
    (inner : Nat) (first : List Piece) (own : Piece) (node : Node) (older : List Edit) (edit : Edit)
    (own' : Piece) : Prop where
  before : ∀ other ∈ first, isNamed "dependencyManagement" other = false
  isNode : IsNodeAt document.chars (inner + Text.size (written first)) own node
  named : own.name? = some "dependencyManagement"
  named' : own'.name? = some "dependencyManagement"
  writes : WritesManaged document key version style node older edit
  noInsertion : NoInsertion older
  amends : Amends (inner + Text.size (written first)) (written [own]) (edit :: older)
    (written [own'])
  sound : Sound [own']
  list : ∃ list, own'.inside.find? (isNamed "dependencies") = some list ∧
    IsManagedList key version style
      (((own.inside.find? (isNamed "dependencies")).map Piece.inside).getD []) list
  outline : outlineOf [node.changeChild "dependencies" (withManaged key version)
    ((wrapped key version).node :: ·)] = outline [own']

/-- The edits for the own version and for the managed dependency, put in order, pin the artifact
in a project whose dependencies are managed. -/
structure PinsManaged (document : Document) (key : ArtifactKey) (version : String) (style : Style)
    (inner : Nat) (content : List Piece) (management : Node) (dropped older : List Edit)
    (edit : Edit) (sorted : List Edit) (content' : List Piece) : Prop where
  drops : DropsFound document key ((nodes document.chars inner inner content).find? fun child =>
    child.name? == some "dependencies") dropped
  writes : WritesManaged document key version style management older edit
  noneDropped : NoInsertion dropped
  noneOlder : NoInsertion older
  permuted : (dropped ++ (older ++ [edit])).Perm sorted
  amends : Amends inner (written content) sorted (written content')
  sound : Sound content'
  pinned : PinnedContent key version style content content'
  outline : outlineOf (pinnedChildren key version (nodes document.chars inner inner content)) =
    outline content'

/-- Of the project's children, the first that manages dependencies can be rewritten. -/
theorem exists_managesIn (regular : style.Regular) (writable : Writable key version) {inner : Nat}
    {content : List Piece} (stands : StandsAt document.chars inner (written content))
    (sound : Sound content) {management : Node}
    (found : (nodes document.chars inner inner content).find?
      (fun child => child.name? == some "dependencyManagement") = some management) :
    ∃ first own rest older edit own', content = first ++ own :: rest ∧
      ManagesIn document key version style inner first own management older edit own' := by
  rcases (Picks.named "dependencyManagement").find? inner stands with
    ⟨none, -⟩ | ⟨first, own, rest, node, some, rfl, before, picked, isNode⟩
  · rw [none] at found
    cases found
  rw [some, Option.some.injEq] at found
  subst found
  have named := isNamed_iff.mp picked
  have soundOwn : Sound [own] := (sound_cons.mp (sound_append.mp sound).2).1
  obtain ⟨older, edit, own', _, list, writes, noInsertion, reworks, foundList, isList, same⟩ :=
    manage_in regular writable isNode (standsAt_around stands).2.1 soundOwn named
  exact ⟨first, own, rest, older, edit, own', rfl, before, isNode, named, reworks.name.trans named,
    writes, noInsertion, reworks.amends, reworks.sound, ⟨list, foundList, isList⟩, same⟩

section

variable {inner : Nat} {first rest : List Piece} {own own' : Piece} {node : Node}
  {older : List Edit} {edit : Edit}
  (manages : ManagesIn document key version style inner first own node older edit own')

include manages

theorem ManagesIn.node_named : (node.name? == some "dependencyManagement") = true := by
  rw [manages.isNode.name?, manages.named, beq_self_eq_true]

theorem ManagesIn.none_before (stands : StandsAt document.chars inner (written first)) :
    ∀ child ∈ nodes document.chars inner inner first,
      (child.name? == some "dependencyManagement") = false :=
  (Picks.named "dependencyManagement").none_of_nodes stands manages.before

/-- The rewritten child is still the first that manages dependencies, if no other is before it. -/
theorem ManagesIn.managed {first' rest' : List Piece}
    (before' : ∀ other ∈ first', isNamed "dependencyManagement" other = false) :
    ∃ management list,
      (first' ++ own' :: rest').find? (isNamed "dependencyManagement") = some management ∧
      management.inside.find? (isNamed "dependencies") = some list ∧
      IsManagedList key version style (managedIn (first ++ own :: rest)) list := by
  obtain ⟨list, foundList, isList⟩ := manages.list
  refine ⟨own', list, find?_append_cons_of before' (isNamed_iff.mpr manages.named') rest',
    foundList, ?_⟩
  rw [managedIn, find?_append_cons_of manages.before (isNamed_iff.mpr manages.named)]
  exact isList

variable (stands : StandsAt document.chars inner (written (first ++ own :: rest)))
  (sound : Sound (first ++ own :: rest))

include stands sound

/-- The own dependencies stand before the managed ones. -/
theorem ManagesIn.drop_before (inFirst : ∃ other ∈ first, isNamed "dependencies" other = true) :
    ∃ dropped sorted content', PinsManaged document key version style inner
      (first ++ own :: rest) node dropped older edit sorted content' := by
  obtain ⟨standsFirst, -, standsRest⟩ := standsAt_around stands
  obtain ⟨soundFirst, -, soundRest⟩ : Sound first ∧ Sound [own] ∧ Sound rest := by
    rwa [sound_append, sound_cons] at sound
  have around := nodes_around inner manages.isNode rest
  obtain ⟨dropped, first', drops⟩ := exists_dropsIn key standsFirst soundFirst
  obtain ⟨other, member, isDependencies⟩ := inFirst
  obtain ⟨dependencies, found⟩ : ∃ dependencies, (nodes document.chars inner inner first).find?
      (fun child => child.name? == some "dependencies") = some dependencies := by
    rcases (Picks.named "dependencies").find? inner standsFirst with
      ⟨-, others⟩ | ⟨_, _, _, dependencies, found, -⟩
    · rw [others other member] at isDependencies
      cases isDependencies
    · exact ⟨dependencies, found⟩
  obtain ⟨piece, foundPiece⟩ : ∃ piece, first.find? (isNamed "dependencies") = some piece :=
    Option.isSome_iff_exists.mp (List.find?_isSome.mpr ⟨other, member, isDependencies⟩)
  have before' : ∀ other ∈ first', isNamed "dependencyManagement" other = false := by
    have notFound := drops.others "dependencyManagement" (by decide)
    rw [find?_eq_none_of manages.before] at notFound
    simpa using List.find?_eq_none.mp notFound
  refine ⟨dropped, dropped ++ (edit :: older), first' ++ own' :: rest, ?_, manages.writes,
    drops.noInsertion, manages.noInsertion, ?_, ?_, ?_, ⟨?_, manages.managed before'⟩, ?_⟩
  · rw [around, List.find?_append, found, Option.some_or, ← found]
    exact drops.edits
  · have swapped : (older ++ [edit]).Perm ([edit] ++ older) := List.perm_append_comm
    exact swapped.append_left dropped
  · have amends := drops.amends.append (manages.amends.append (.keep _ (written rest)))
    rw [List.append_nil] at amends
    rwa [written_append, written_append, written_cons own rest, written_cons own' rest]
  · exact sound_append.mpr ⟨drops.sound, sound_cons.mpr ⟨manages.sound, soundRest⟩⟩
  · rw [List.find?_append, List.find?_append]
    exact drops.own.or foundPiece _ _
  · have isFound : ∃ child ∈ nodes document.chars inner inner first,
        (child.name? == some "dependencies") = true :=
      ⟨dependencies, List.mem_of_find?_eq_some found, by simpa using List.find?_some found⟩
    rw [around, pinnedChildren_around (replaceFirst_append_left isFound _ _)
        (none_of_dropped (manages.none_before standsFirst)) manages.node_named, outlineOf_append,
      outlineOf_append, drops.outline, manages.outline, outlineOf_nodes_whole standsRest,
      ← outline_append, ← outline_append, List.append_assoc, List.singleton_append]

/-- The own dependencies stand behind the managed ones, if there are any. -/
theorem ManagesIn.drop_behind (noneFirst : ∀ other ∈ first, isNamed "dependencies" other = false) :
    ∃ dropped sorted content', PinsManaged document key version style inner
      (first ++ own :: rest) node dropped older edit sorted content' := by
  obtain ⟨standsFirst, -, standsRest⟩ := standsAt_around stands
  obtain ⟨soundFirst, -, soundRest⟩ : Sound first ∧ Sound [own] ∧ Sound rest := by
    rwa [sound_append, sound_cons] at sound
  have around := nodes_around inner manages.isNode rest
  obtain ⟨dropped, rest', drops⟩ := exists_dropsIn key standsRest soundRest
  have noneFirstNode : ∀ child ∈ nodes document.chars inner inner first,
      (child.name? == some "dependencies") = false :=
    (Picks.named "dependencies").none_of_nodes standsFirst noneFirst
  have otherNode : (node.name? == some "dependencies") = false := by
    rw [manages.isNode.name?, manages.named]
    decide
  have otherName : isNamed "dependencies" own = false :=
    isNamed_eq_false manages.named (by decide)
  have otherName' : isNamed "dependencies" own' = false :=
    isNamed_eq_false manages.named' (by decide)
  refine ⟨dropped, (edit :: older) ++ dropped, first ++ own' :: rest', ?_, manages.writes,
    drops.noInsertion, manages.noInsertion, ?_, ?_, ?_, ⟨?_, manages.managed manages.before⟩, ?_⟩
  · rw [around, List.find?_append, find?_eq_none_of noneFirstNode, Option.none_or,
      List.find?_cons_of_neg (by simp [otherNode])]
    exact drops.edits
  · have swapped : (older ++ [edit]).Perm (edit :: older) := List.perm_append_comm
    exact List.perm_append_comm.trans (swapped.append_right dropped)
  · have place : inner + Text.size (written (first ++ [own])) =
        inner + Text.size (written first) + Text.size (written [own]) := by
      rw [written_append, Text.size_append, Nat.add_assoc]
    have dropsAmends := drops.amends
    rw [place] at dropsAmends
    have amends := (manages.amends.append dropsAmends).behind
    rwa [written_append, written_append, written_cons own rest, written_cons own' rest']
  · exact sound_append.mpr ⟨soundFirst, sound_cons.mpr ⟨manages.sound, drops.sound⟩⟩
  · rw [List.find?_append, List.find?_append, find?_eq_none_of noneFirst, Option.none_or,
      Option.none_or, List.find?_cons_of_neg (by simp [otherName]),
      List.find?_cons_of_neg (by simp [otherName'])]
    exact drops.own
  · rw [around, pinnedChildren_around (replaceFirst_append_cons noneFirstNode otherNode _ _)
        (manages.none_before standsFirst) manages.node_named, outlineOf_append, outlineOf_append,
      drops.outline, manages.outline, outlineOf_nodes_whole standsFirst, ← outline_append,
      ← outline_append, List.append_assoc, List.singleton_append]

end

variable (regular : style.Regular) (writable : Writable key version)

include regular writable

/-- If dependencies are managed, the edits for the own version and for the managed one stand in
two children of the project, whichever comes first. -/
theorem pin_managed {inner : Nat} {content : List Piece}
    (stands : StandsAt document.chars inner (written content)) (sound : Sound content)
    {management : Node}
    (found : (nodes document.chars inner inner content).find?
      (fun child => child.name? == some "dependencyManagement") = some management) :
    ∃ dropped older edit sorted content', PinsManaged document key version style inner content
      management dropped older edit sorted content' := by
  obtain ⟨first, own, rest, older, edit, own', rfl, manages⟩ :=
    exists_managesIn regular writable stands sound found
  by_cases inFirst : ∃ other ∈ first, isNamed "dependencies" other = true
  · obtain ⟨dropped, sorted, content', pins⟩ := manages.drop_before stands sound inFirst
    exact ⟨dropped, older, edit, sorted, content', pins⟩
  · obtain ⟨dropped, sorted, content', pins⟩ :=
      manages.drop_behind stands sound (by simpa using inFirst)
    exact ⟨dropped, older, edit, sorted, content', pins⟩

omit regular writable in
/-- The new list of dependencies, when no dependencies were managed. -/
theorem managed_of_whole (key : ArtifactKey) (version : String) {base : String}
    (blankBase : blank base.toList = true) (regular : style.Regular) :
    ∃ list, ((wholeManagement key version).piece base style 1).inside.find?
        (isNamed "dependencies") = some list ∧ IsManagedList key version style [] list := by
  have listName : ((wrapped key version).piece base style 2).name? = some "dependencies" :=
    Snippet.name?_branch (by decide) _ base style 2
  have alike := Snippet.alike_inside regular blankBase "dependencyManagement"
    [wrapped key version] 1
  refine ⟨(wrapped key version).piece base style 2, ?_, rfl, listName, base, 3, blankBase,
    Snippet.alike_inside regular blankBase "dependencies" [managed key version] 2⟩
  rw [wholeManagement, alike.find?, List.map_cons, List.find?_cons_of_pos]
  rw [isNamed, listName, beq_self_eq_true]

/-- If no dependencies are managed, what is to manage them is written last in the project. -/
theorem pin_unmanaged {offset : Nat} {opening closing : List Char} {inside : List Piece}
    {project : Node}
    (isNode : IsNodeAt document.chars offset (.pair opening inside closing) project)
    (stands : StandsAt document.chars offset (written [.pair opening inside closing]))
    (sound : Sound [.pair opening inside closing])
    (notFound : project.child? "dependencyManagement" = none) :
    ∃ dropped edit inside',
      DropsFound document key (project.child? "dependencies") dropped ∧
      insertLast? document project (wholeManagement key version) style = some edit ∧
      NoInsertion dropped ∧
      Amends (innerStart offset opening) (written inside) (dropped ++ [edit]) (written inside') ∧
      Sound inside' ∧ PinnedContent key version style inside inside' ∧
      outlineOf (pinnedChildren key version project.children) = outline inside' := by
  obtain ⟨-, -, -, soundInside⟩ := sound_pair.mp sound
  have standsInside := (enclosed_of_pair stands).standsAt
  have children := children_of_pair isNode
  have legible := legible_wholeManagement writable
  have noneManaged : ∀ piece ∈ inside, isNamed "dependencyManagement" piece = false := by
    rcases (Picks.named "dependencyManagement").find? (innerStart offset opening) standsInside with
      ⟨-, others⟩ | ⟨_, _, _, node, some, -⟩
    · exact others
    · rw [Node.child?, children, some] at notFound
      cases notFound
  obtain ⟨base, edit, kept, tail, blankBase, rfl, blankTail, inserted, after⟩ :=
    insertLast?_after regular isNode stands soundInside legible
  obtain ⟨soundKept, soundTail⟩ := sound_append.mp soundInside
  have standsKept : StandsAt document.chars (innerStart offset opening) (written kept) := by
    rw [written_append] at standsInside
    exact standsInside.left
  obtain ⟨dropped, kept', drops⟩ := exists_dropsIn key standsKept soundKept
  have whole := drops.append_data standsInside (sound_data.mp soundTail)
  obtain ⟨inside', amends, sound', alike⟩ := after drops.amends drops.sound
  have named : ((wholeManagement key version).piece base style 1).name? =
      some "dependencyManagement" := Snippet.name?_branch (by decide) _ base style 1
  obtain ⟨list, foundList, isList⟩ := managed_of_whole key version blankBase regular
  have noneKept : kept'.find? (isNamed "dependencyManagement") = none := by
    rw [drops.others _ (by decide)]
    exact find?_eq_none_of fun piece member =>
      noneManaged piece (List.mem_append_left _ member)
  refine ⟨dropped, edit, inside', ?_, inserted, drops.noInsertion, amends, sound',
    ⟨?_, (wholeManagement key version).piece base style 1, list, ?_, foundList, ?_⟩, ?_⟩
  · rw [Node.child?, children]
    exact whole.edits
  · have notOwn : ¬ isNamed "dependencies"
        ((wholeManagement key version).piece base style 1) = true := by
      rw [isNamed, named]
      decide
    rw [find?_append_data (Picks.named _), alike.find?, List.find?_append,
      List.find?_cons_of_neg notOwn, List.find?_nil, Option.or_none]
    exact drops.own
  · rw [alike.find?, List.find?_append, noneKept, Option.none_or,
      List.find?_cons_of_pos (isNamed_iff.mpr named)]
  · rw [managedIn, find?_eq_none_of noneManaged]
    exact isList
  · have noneNode : ∀ node ∈ project.children,
        (node.name? == some "dependencyManagement") = false := by
      rw [children]
      exact (Picks.named "dependencyManagement").none_of_nodes standsInside noneManaged
    rw [pinnedChildren, List.find?_eq_none.mpr fun node member => by
      simp [none_of_dropped noneNode node member]]
    rw [outlineOf_append, children, whole.outline, alike.outline, outline_append, outline_append,
      Snippet.outline_piece regular blankBase 1 _ legible]
    rw [(Alike.of_blank blankTail).outline, outline_nil, List.append_nil]

end

/-! ### The project element -/

/-- The edits of the remedy, in the order in which they were added and from the left, make a
pinned project of a project. -/
structure PinsProject (document : Document) (key : ArtifactKey) (version : String) (style : Style)
    (offset : Nat) (root : Piece) (project : Node) (added sorted : List Edit) (root' : Piece) :
    Prop where
  computed : ∃ dropped written, dropOwnVersion document project key = .ok dropped ∧
    manage document project key version style = .ok written ∧ added = dropped ++ written
  same : added.Perm sorted
  oneInsertion : OneInsertion added
  amends : Amends offset (written [root]) sorted (written [root'])
  sound : Sound [root']
  element : root'.isElement = true
  name : root'.name? = root.name?
  content : PinnedContent key version style root.inside root'.inside
  outline : outlineOf [pinned key version project] = outline [root']

theorem oneInsertion_of {before after : List Edit} (noneBefore : NoInsertion before)
    (noneAfter : NoInsertion after) (edit : Edit) : OneInsertion (before ++ (after ++ [edit])) := by
  have only : ∀ other ∈ before ++ (after ++ [edit]), other.span.isEmpty = true → other = edit := by
    intro other member empty
    simp only [List.mem_append, List.mem_singleton] at member
    rcases member with early | late | same
    · rw [noneBefore other early] at empty
      cases empty
    · rw [noneAfter other late] at empty
      cases empty
    · exact same
  intro first firstMember second secondMember firstEmpty secondEmpty
  rw [only first firstMember firstEmpty, only second secondMember secondEmpty]

section

variable {key : ArtifactKey} {version : String} {style : Style} (regular : style.Regular)
  (writable : Writable key version)

include regular writable

/-- An artifact can be pinned in every project element, whatever its layout. -/
theorem exists_pinsProject {offset : Nat} {root : Piece} {project : Node}
    (isNode : IsNodeAt document.chars offset root project)
    (stands : StandsAt document.chars offset (written [root])) (sound : Sound [root])
    (named : root.name? = some "project") :
    ∃ added sorted root',
      PinsProject document key version style offset root project added sorted root' := by
  have legible := legible_wholeManagement writable
  cases root with
  | single body =>
    have children := children_of_single isNode
    have plain : plainName "project".toList := by decide
    obtain ⟨base, edit, root', blankBase, expanded, reworks⟩ :=
      reworks_expanded regular isNode stands plain (by simpa [Piece.name?] using named) legible
    have named' : ((wholeManagement key version).piece base style 1).name? =
        some "dependencyManagement" := Snippet.name?_branch (by decide) _ base style 1
    obtain ⟨list, foundList, isList⟩ := managed_of_whole key version blankBase regular
    have inserted : insertLast? document project (wholeManagement key version) style =
        some edit := by simp [insertLast?, single_of_isNodeAt isNode, expanded]
    refine ⟨[edit], [edit], root', ⟨[], [edit], ?_, ?_, rfl⟩, .refl _, ?_, reworks.amends,
      reworks.sound, reworks.element, reworks.name, ⟨?_, _, list, ?_, foundList, isList⟩, ?_⟩
    · exact dropOwnVersion_eq (by simp [Node.child?, children, DropsFound])
    · exact manage_eq_of_none (by simp [Node.child?, children]) inserted
    · exact oneInsertion_singleton edit
    · rw [reworks.content.find?, List.find?_cons_of_neg (by rw [isNamed, named']; decide)]
      trivial
    · rw [reworks.content.find?, List.find?_cons_of_pos (by rw [isNamed, named', beq_self_eq_true])]
    · rw [pinned_eq]
      refine outline_reworked isNode reworks ?_
      rw [children]
      exact (Snippet.outline_piece regular blankBase 1 _ legible).symm
  | pair opening inside closing =>
    obtain ⟨-, -, -, soundInside⟩ := sound_pair.mp sound
    have children := children_of_pair isNode
    cases found : project.child? "dependencyManagement" with
    | none =>
      obtain ⟨dropped, edit, inside', drops, inserted, noInsertion, amends, sound', content, same⟩ :=
        pin_unmanaged regular writable isNode stands sound found
      have reworks := reworks_inside sound sound' amends (Alike.refl inside')
      refine ⟨dropped ++ [edit], _, _,
        ⟨dropped, [edit], dropOwnVersion_eq drops, manage_eq_of_none found inserted, rfl⟩, .refl _,
        ?_, reworks.amends, reworks.sound, reworks.element, reworks.name, content, ?_⟩
      · have none : NoInsertion [] := by simp [NoInsertion]
        exact oneInsertion_of noInsertion none edit
      · rw [pinned_eq]
        exact outline_reworked isNode reworks same
    | some management =>
      have found' := found
      rw [Node.child?, children] at found'
      obtain ⟨dropped, older, edit, sorted, inside', pins⟩ :=
        pin_managed regular writable (enclosed_of_pair stands).standsAt soundInside found'
      have reworks := reworks_inside sound pins.sound pins.amends (Alike.refl inside')
      refine ⟨dropped ++ (older ++ [edit]), sorted, _,
        ⟨dropped, older ++ [edit], dropOwnVersion_eq ?_, manage_eq found pins.writes, rfl⟩,
        pins.permuted, oneInsertion_of pins.noneDropped pins.noneOlder edit, reworks.amends,
        reworks.sound, reworks.element, reworks.name, pins.pinned, ?_⟩
      · rw [Node.child?, children]
        exact pins.drops
      · rw [pinned_eq]
        refine outline_reworked isNode reworks ?_
        rw [children]
        exact pins.outline
  | _ => exact absurd isNode.1 (by simp [isElement])

end

/-! ### The whole document -/

/-- The character with which a byte order mark begins a text. -/
def BeginsWithMark (text : String) : Prop :=
  text.toList.head? = some '\uFEFF'

theorem withoutMark_eq {text : List Char} (noMark : text.head? ≠ some '\uFEFF') :
    withoutMark text = text := by
  unfold withoutMark
  split
  · exact absurd rfl noMark
  · rfl

/-- A text without a mark does not get one when its root element is exchanged. -/
theorem noMark_of_exchanged {before after : List Char} {root root' : Piece}
    (noMark : (before ++ (written [root] ++ after)).head? ≠ some '\uFEFF')
    (element : root'.isElement = true) (sound : Sound [root']) :
    (before ++ (written [root'] ++ after)).head? ≠ some '\uFEFF' := by
  obtain ⟨content, brackets⟩ := written_of_isMarkup (isMarkup_of_isElement element) sound
  cases before with
  | nil =>
    rw [List.nil_append, brackets]
    simp only [List.cons_append, List.head?_cons, ne_eq, Option.some.injEq]
    decide
  | cons first rest => simpa using noMark

/-- A document has a project element if its root is one and no other element is. -/
theorem projectElement_eq_ok_iff {project : Node} :
    projectElement document = .ok project ↔
      Tree.parse document.text = .ok ⟨project⟩ ∧ namedIn "project" (outlineOf [project]) = 1 ∧
        project.name? = some "project" := by
  have counted (tree : Tree) := Tree.length_filter_places "project" tree
  unfold projectElement
  cases parsed : Tree.parse document.text with
  | error failure => simp [throw, throwThe, MonadExceptOf.throw]
  | ok tree =>
    obtain ⟨root⟩ := tree
    have count : namedIn "project" root.outline = namedIn "project" (outlineOf [root]) := by
      simp [outlineOf]
    simp only [counted, count]
    split
    · next refused =>
      simp only [throw, throwThe, MonadExceptOf.throw, reduceCtorEq, Except.ok.injEq,
        Tree.mk.injEq, false_iff, not_and]
      rintro rfl one named
      exact refused.elim (· one) (· named)
    · next accepted =>
      simp only [not_or, not_not] at accepted
      simp only [pure, Except.pure, Except.ok.injEq, Tree.mk.injEq]
      exact ⟨by rintro rfl; exact ⟨rfl, accepted⟩, And.left⟩

/-- Pinning goes through if the project element does, unless nothing is to be done. -/
theorem pin_eq {project : Node} {key : ArtifactKey} {effective chosen : String} {style : Style}
    (different : chosen ≠ effective) (computed : projectElement document = .ok project)
    {dropped written : List Edit} (drops : dropOwnVersion document project key = .ok dropped)
    (manages : manage document project key chosen style = .ok written) :
    pin document key effective chosen style =
      .ok (some ⟨document.path, dropped ++ written⟩) := by
  simp [pin, different, computed, drops, manages, bind, Except.bind, pure, Except.pure]

/-- What pinning does to a document: its pieces before and after, and the edits between. -/
structure Pins (document : Document) (key : ArtifactKey) (version : String) (style : Style)
    (set : EditSet) (old new : Layout) (before after : Node) : Prop where
  sound : old.Sound
  whole : document.chars = written old.pieces
  parsed : Tree.parse document.text = .ok ⟨before⟩
  sound' : new.Sound
  applied : set.applyTo document.text = .ok (String.ofList (written new.pieces))
  reparsed : Tree.parse (String.ofList (written new.pieces)) = .ok ⟨after⟩
  isNode : IsNodeAt (written old.pieces) old.rootOffset old.root before
  isNode' : IsNodeAt (written new.pieces) new.rootOffset new.root after
  named : old.root.name? = some "project"
  named' : new.root.name? = some "project"
  content : PinnedContent key version style old.root.inside new.root.inside
  outline : outlineOf [after] = outlineOf [pinned key version before]

theorem standsAt_root (layout : Layout) :
    StandsAt (written layout.pieces) layout.rootOffset (written [layout.root]) := by
  refine ⟨written layout.before, written layout.after, ?_, rfl⟩
  rw [Layout.pieces, written_append, written_cons layout.root layout.after]

/-- A text without a byte order mark that has a tree is laid out around its root element. -/
theorem exists_layout (noMark : ¬ BeginsWithMark document.text) {root : Node}
    (parsed : Tree.parse document.text = .ok ⟨root⟩) :
    ∃ layout : Layout, layout.Sound ∧ document.chars = written layout.pieces ∧
      IsNodeAt document.chars layout.rootOffset layout.root root ∧
      StandsAt document.chars layout.rootOffset (written [layout.root]) ∧ Sound [layout.root] := by
  obtain ⟨layout, sound, same, shown⟩ := parse_eq_ok_iff.mp parsed
  rw [withoutMark_eq noMark] at same
  have stands := standsAt_root layout
  rw [same] at stands
  exact ⟨layout, sound, same.symm, ⟨sound.root, shown⟩, stands,
    (sound_cons.mp (sound_append.mp sound.pieces).2).1⟩

/-- What is done to the root element is done to the text, and the new text has a tree. -/
theorem exists_reparsed {old : Layout} (sound : old.Sound)
    (noMark : (written old.pieces).head? ≠ some '\uFEFF') {edits : List Edit} {root : Piece}
    {content : List Piece} (reworks : Reworks old.rootOffset old.root edits root content) :
    ∃ new : Layout, ∃ after, new.Sound ∧ new.root = root ∧
      Amends 0 (written old.pieces) edits (written new.pieces) ∧
      Tree.parse (String.ofList (written new.pieces)) = .ok ⟨after⟩ ∧
      IsNodeAt (written new.pieces) new.rootOffset new.root after := by
  let new : Layout := ⟨old.before, root, old.after⟩
  have sound' : new.Sound :=
    ⟨sound_around sound.pieces reworks.sound, reworks.element, sound.before, sound.after⟩
  have split (root : Piece) : written (old.before ++ root :: old.after) =
      written old.before ++ (written [root] ++ written old.after) := by
    rw [written_append, written_cons root old.after]
  have amends : Amends 0 (written old.pieces) edits (written new.pieces) := by
    have inside := reworks.amends
    rw [Layout.rootOffset, ← Nat.zero_add (Text.size (written old.before))] at inside
    have whole := (inside.append (.keep _ (written old.after))).behind
    rwa [List.append_nil, ← split, ← split] at whole
  have noMark' : (written new.pieces).head? ≠ some '\uFEFF' := by
    rw [Layout.pieces, split] at noMark ⊢
    exact noMark_of_exchanged noMark reworks.element reworks.sound
  obtain ⟨after, isNode⟩ := exists_isNodeAt (written new.pieces) new.rootOffset reworks.element
  refine ⟨new, after, sound', rfl, amends, parse_of_layout sound' ?_ ?_, isNode⟩
  · rw [String.toList_ofList, withoutMark_eq noMark']
  · rw [String.toList_ofList]
    exact isNode.2

section

variable {key : ArtifactKey} {version : String} {style : Style} (regular : style.Regular)
  (writable : Writable key version)

include regular writable

/-- In every document without a byte order mark that has a project element, an artifact can be
pinned, and the edits do what the pieces say. -/
theorem exists_pins (noMark : ¬ BeginsWithMark document.text) {project : Node}
    (computed : projectElement document = .ok project) {effective : String}
    (different : version ≠ effective) :
    ∃ set old new after, pin document key effective version style = .ok (some set) ∧
      Pins document key version style set old new project after := by
  obtain ⟨parsed, -, named⟩ := projectElement_eq_ok_iff.mp computed
  obtain ⟨old, sound, same, isNode, stands, soundRoot⟩ := exists_layout noMark parsed
  have named' : old.root.name? = some "project" := isNode.name?.symm.trans named
  obtain ⟨added, sorted, root', pins⟩ :=
    exists_pinsProject regular writable isNode stands soundRoot named'
  obtain ⟨dropped, managed, drops, manages, rfl⟩ := pins.computed
  have reworks : Reworks old.rootOffset old.root sorted root' root'.inside :=
    ⟨pins.amends, pins.sound, pins.element, pins.name, Alike.refl _⟩
  rw [same] at isNode
  obtain ⟨new, after, sound', rfl, amends, reparsed, isNode'⟩ :=
    exists_reparsed sound (by rw [← same]; exact noMark) reworks
  rw [← same] at amends
  have applied := @applyTo_of_amends ⟨document.path, dropped ++ managed⟩ _ _ _ amends pins.same
    pins.oneInsertion
  refine ⟨_, old, new, after, pin_eq different computed drops manages, sound, same, parsed,
    sound', applied, reparsed, isNode, isNode', named', pins.name.trans named', pins.content, ?_⟩
  rw [pins.outline]
  exact isNode'.outline (standsAt_root new)

end

theorem projectElement_ne_cutCharacter (document : Document) :
    projectElement document ≠ .error .cutCharacter := by
  intro failed
  unfold projectElement at failed
  split at failed
  · cases failed
  · simp only at failed
    split at failed <;> cases failed

/-- Pinning is a tree edit. In a text without a byte order mark no span cuts a character, and if
there is anything to do, the edits can be made, the new text has a tree, and apart from blanks
that tree is the old one after the edit. -/
theorem pin_treeEdit (document : Document) (key : ArtifactKey) (effective chosen : String)
    (style : Style) (noMark : ¬ BeginsWithMark document.text) (writable : Writable key chosen)
    (regular : style.Regular) :
    pin document key effective chosen style ≠ .error .cutCharacter ∧
      ∀ set, pin document key effective chosen style = .ok (some set) →
        ∃ old text new, Tree.parse document.text = .ok old ∧ set.applyTo document.text = .ok text ∧
          Tree.parse text = .ok new ∧ new.root.outline = (pinned key chosen old.root).outline := by
  by_cases different : chosen ≠ effective
  · match computed : projectElement document with
    | .error failure =>
      have failed : pin document key effective chosen style = .error failure := by
        simp [pin, different, computed, bind, Except.bind]
      rw [failed]
      refine ⟨fun same => ?_, fun set same => by cases same⟩
      cases same
      exact projectElement_ne_cutCharacter document computed
    | .ok project =>
      obtain ⟨set, old, new, after, computes, pins⟩ :=
        exists_pins regular writable noMark computed different
      rw [computes]
      refine ⟨by simp, fun other same => ?_⟩
      cases same
      refine ⟨⟨project⟩, _, ⟨after⟩, pins.parsed, pins.applied, pins.reparsed, ?_⟩
      simpa [outlineOf] using pins.outline
  · have nothing : pin document key effective chosen style = .ok none := by
      simp [pin, different, pure, Except.pure]
    rw [nothing]
    exact ⟨by simp, fun set same => by cases same⟩

/-- A project in which an artifact is declared on lines of its own and nothing is managed. -/
def ownDeclaration : Document where
  path := ⟨"/p/pom.xml"⟩
  text := "<project>\n\t<dependencies>\n<dependency><groupId>g</groupId>\n" ++
    "<artifactId>a</artifactId>\n<version>1</version> \n</dependency></dependencies>\n</project>"

theorem noMark_ownDeclaration : ¬ BeginsWithMark ownDeclaration.text := by
  unfold BeginsWithMark
  decide +kernel

/-- Two edits pin the artifact. -/
theorem pin_ownDeclaration :
    ∃ set, pin ownDeclaration ⟨"g", "a"⟩ "1" "2" Style.standard = .ok (some set) ∧
      set.added.length = 2 := by
  have twoEdits : (pin ownDeclaration ⟨"g", "a"⟩ "1" "2" Style.standard).toOption.join.map
      (fun set => set.added.length) = some 2 := by decide +kernel
  obtain ⟨set, computed, two⟩ := Option.map_eq_some_iff.mp twoEdits
  exact ⟨set, join_toOption_eq_some_iff.mp computed, two⟩

theorem pin_treeEdit_ownDeclaration :
    ∃ set, pin ownDeclaration ⟨"g", "a"⟩ "1" "2" Style.standard = .ok (some set) ∧
      set.added.length = 2 ∧ ∃ old text new, Tree.parse ownDeclaration.text = .ok old ∧
        set.applyTo ownDeclaration.text = .ok text ∧ Tree.parse text = .ok new ∧
        new.root.outline = (pinned ⟨"g", "a"⟩ "2" old.root).outline := by
  obtain ⟨set, computes, two⟩ := pin_ownDeclaration
  have writable : Writable ⟨"g", "a"⟩ "2" :=
    ⟨by decide +kernel, by decide +kernel, by decide +kernel⟩
  exact ⟨set, computes, two, (pin_treeEdit ownDeclaration ⟨"g", "a"⟩ "1" "2" Style.standard
    noMark_ownDeclaration writable Style.regular_standard).2 set computes⟩

end PomLens.Remedy
