/-
This file follows the edits that take away the project's own version of an artifact.

The own dependency is looked for in the first list of dependencies among the project's children,
and only the first version inside the first declaration there is removed. The edit is followed
from the version outwards: what it does to the declaration (`drop_version`), to the list
(`drop_in`), and to any stretch of the project's children in which the list may stand
(`exists_dropsIn`). One step outwards is the same for every remedy: what is done to the first child
that is picked is done to the element around it (`reworks_first`).
-/

import PomLens.Proofs.Remedy.TreeEdit

namespace PomLens.Remedy

open Markup Markup.Piece
open Text (StandsAt blank)

/-- Edits that insert nothing. -/
def NoInsertion (edits : List Edit) : Prop :=
  ∀ edit ∈ edits, edit.span.isEmpty = false

variable {document : Document}

/-! ### Around an element -/

/-- What is done to an element is done to the pieces around it. -/
theorem Reworks.around {inner : Nat} {first rest : List Piece} {piece piece' : Piece}
    {edits : List Edit} {content : List Piece}
    (reworks : Reworks (inner + Text.size (written first)) piece edits piece' content) :
    Amends inner (written (first ++ piece :: rest)) edits (written (first ++ piece' :: rest)) := by
  have amends := (reworks.amends.append (.keep _ (written rest))).behind
  rw [List.append_nil] at amends
  rwa [written_append, written_append, written_cons piece rest, written_cons piece' rest]

theorem sound_around {first rest : List Piece} {piece piece' : Piece}
    (sound : Sound (first ++ piece :: rest)) (sound' : Sound [piece']) :
    Sound (first ++ piece' :: rest) := by
  rw [sound_append, sound_cons] at sound ⊢
  exact ⟨sound.1, sound', sound.2.2⟩

theorem reworks_unchanged (offset : Nat) {piece : Piece} (sound : Sound [piece])
    (element : piece.isElement = true) {content : List Piece}
    (alike : Alike piece.inside content) : Reworks offset piece [] piece content :=
  ⟨.keep _ _, sound, element, rfl, alike⟩

/-! ### Removing the first of many -/

/-- The edits that remove a node, if there is one. -/
def Deletes (document : Document) (found : Option Node) (edits : List Edit) : Prop :=
  match found with
  | none => edits = []
  | some node => ∃ edit, delete? document node = some edit ∧ edits = [edit]

/-- Removing the first element that is picked leaves the others, and its outline goes. -/
theorem delete_first {pick : Node → Bool} {pickPiece : Piece → Bool}
    (picks : Picks pick pickPiece) {inner : Nat} {content : List Piece}
    (enclosed : Enclosed document.chars inner content) (sound : Sound content) :
    ∃ edits content',
      Deletes document ((nodes document.chars inner inner content).find? pick) edits ∧
      NoInsertion edits ∧ Amends inner (written content) edits (written content') ∧
      Sound content' ∧ Alike content' (replaceFirst pickPiece (fun _ => []) content) ∧
      outlineOf (replaceFirst pick (fun _ => []) (nodes document.chars inner inner content)) =
        outline content' := by
  have stands := enclosed.standsAt
  rcases picks.find? inner stands with
    ⟨none, others⟩ | ⟨first, piece, rest, node, some, rfl, before, picked, isNode⟩
  · refine ⟨[], content, by simp [Deletes, none], by simp [NoInsertion], .keep _ _, sound, ?_, ?_⟩
    · rw [replaceFirst_of_none others]
      exact Alike.refl content
    · rw [replaceFirst_of_none (picks.none_of_nodes stands others), outlineOf_nodes_whole stands]
  · obtain ⟨edit, kept, lead, tail, others, deleted, covers, rfl, rfl, blankLead, blankTail,
      amends⟩ := delete?_eq enclosed sound isNode
    have alike : Alike (kept ++ others) ((kept ++ data lead) ++ (data tail ++ others)) := by
      have left := (Alike.refl kept).append (Alike.of_blank blankLead).symm
      have right := (Alike.of_blank blankTail).symm.append (Alike.refl others)
      simpa using left.append right
    have replaced : replaceFirst pickPiece (fun _ => [])
        ((kept ++ data lead) ++ piece :: (data tail ++ others)) =
          (kept ++ data lead) ++ (data tail ++ others) := by
      rw [replaceFirst_of_find? before picked, List.append_nil]
    refine ⟨[edit], kept ++ others, ?_, by simpa [NoInsertion] using covers, amends, ?_, ?_, ?_⟩
    · rw [some]
      exact ⟨edit, deleted, rfl⟩
    · obtain ⟨soundFirst, soundRest⟩ := sound_append.mp sound
      exact sound_append.mpr
        ⟨(sound_append.mp soundFirst).1, (sound_append.mp (sound_cons.mp soundRest).2).2⟩
    · rw [replaced]
      exact alike
    · rw [outlineOf_replaceFirst picks (fun _ => []) stands before picked isNode, alike.outline]
      simp

/-! ### The children of an element -/

theorem children_of_pair {source : List Char} {offset : Nat} {opening closing : List Char}
    {inside : List Piece} {node : Node}
    (isNode : IsNodeAt source offset (.pair opening inside closing) node) :
    node.children = nodes source (innerStart offset opening) (innerStart offset opening) inside := by
  obtain ⟨-, shown⟩ := isNode
  simp only [nodes, dataNodes_self, List.nil_append, List.cons.injEq, and_true] at shown
  subst shown
  rfl

theorem children_of_single {source : List Char} {offset : Nat} {body : List Char} {node : Node}
    (isNode : IsNodeAt source offset (.single body) node) : node.children = [] := by
  obtain ⟨-, shown⟩ := isNode
  simp only [nodes, dataNodes_self, List.nil_append, List.cons.injEq, and_true] at shown
  subst shown
  rfl

theorem exists_name {piece : Piece} (element : piece.isElement = true) :
    ∃ name, piece.name? = some name := by
  cases piece <;> simp_all [isElement, Piece.name?]

/-- An element whose children are changed has an outline by them. -/
theorem outline_reworked {offset : Nat} {piece piece' : Piece} {node : Node} {edits : List Edit}
    {content : List Piece} (isNode : IsNodeAt document.chars offset piece node)
    (reworks : Reworks offset piece edits piece' content) {change : List Node → List Node}
    (same : outlineOf (change node.children) = outline content) :
    outlineOf [node.withChildren change] = outline [piece'] := by
  obtain ⟨name, named⟩ := exists_name isNode.1
  rw [Node.outline_withChildren (isNode.name?.trans named), same, ← reworks.content.outline,
    outline_element reworks.element (reworks.name.trans named)]

/-! ### The first child that is picked -/

section

variable {offset : Nat} {piece : Piece} {node : Node}
  (isNode : IsNodeAt document.chars offset piece node)
  (stands : StandsAt document.chars offset (written [piece])) (sound : Sound [piece])

include isNode stands sound

/-- An element in which no child is picked stays as it is. -/
theorem reworks_none {pick : Node → Bool} (notFound : node.children.find? pick = none)
    (change : Node → List Node) :
    Reworks offset piece [] piece piece.inside ∧
      outlineOf [node.withChildren (replaceFirst pick change)] = outline [piece] := by
  have reworks := reworks_unchanged offset sound isNode.1 (Alike.refl piece.inside)
  obtain ⟨inner, children, within⟩ := isNode.children stands
  refine ⟨reworks, outline_reworked isNode reworks ?_⟩
  rw [replaceFirst_of_none (by simpa using List.find?_eq_none.mp notFound), children,
    outlineOf_nodes_whole within]

/-- What is done to the first child that is picked is done to the element. -/
theorem reworks_first {pick : Node → Bool} {pickPiece : Piece → Bool} (picks : Picks pick pickPiece)
    {child : Node} (found : node.children.find? pick = some child) :
    ∃ place own, piece.inside.find? pickPiece = some own ∧
      IsNodeAt document.chars place own child ∧ StandsAt document.chars place (written [own]) ∧
      Sound [own] ∧
      ∀ {edits own' content} {change : Node → Node}, Reworks place own edits own' content →
        outlineOf [change child] = outline [own'] →
          ∃ piece', Reworks offset piece edits piece'
              (replaceFirst pickPiece (fun _ => [own']) piece.inside) ∧
            outlineOf [node.withChildren (replaceFirst pick fun child => [change child])] =
              outline [piece'] := by
  cases piece with
  | single body =>
    rw [children_of_single isNode] at found
    cases found
  | pair opening inside closing =>
    obtain ⟨-, -, -, soundInside⟩ := sound_pair.mp sound
    have within := (enclosed_of_pair stands).standsAt
    have children := children_of_pair isNode
    rw [children] at found
    rcases picks.find? (innerStart offset opening) within with
      ⟨notFound, -⟩ | ⟨first, own, rest, node', isFirst, rfl, before, picked, isOwn⟩
    · rw [notFound] at found
      cases found
    obtain rfl := Option.some.inj (isFirst.symm.trans found)
    refine ⟨_, own, find?_append_cons_of before picked rest, isOwn, (standsAt_around within).2.1,
      (sound_cons.mp (sound_append.mp soundInside).2).1, fun {_ own' _ _} reworks same => ?_⟩
    have replaced : replaceFirst pickPiece (fun _ => [own']) (first ++ own :: rest) =
        first ++ own' :: rest := by
      rw [replaceFirst_of_find? before picked, List.append_assoc, List.singleton_append]
    have whole := reworks_inside sound (sound_around soundInside reworks.sound) reworks.around
      (Alike.refl _)
    rw [Piece.inside, replaced]
    refine ⟨_, whole, outline_reworked isNode whole ?_⟩
    rw [children, outlineOf_replaceFirst picks _ within before picked isOwn, same,
      ← outline_append, ← outline_append, List.append_assoc, List.singleton_append]
  | _ => exact absurd isNode.1 (by simp [isElement])

end

/-! ### The project's own dependency -/

/-- The first version of an element is removed by at most one edit. -/
theorem drop_version {offset : Nat} {piece : Piece} {node : Node}
    (isNode : IsNodeAt document.chars offset piece node)
    (stands : StandsAt document.chars offset (written [piece])) (sound : Sound [piece]) :
    ∃ edits piece', Deletes document (node.child? "version") edits ∧ NoInsertion edits ∧
      Reworks offset piece edits piece' (replaceFirst (isNamed "version") (fun _ => []) piece.inside) ∧
      outlineOf [withoutVersion node] = outline [piece'] := by
  cases piece with
  | single body =>
    have children := children_of_single isNode
    have reworks := reworks_unchanged offset sound isNode.1 (Alike.refl [])
    refine ⟨[], .single body, ?_, by simp [NoInsertion], reworks,
      outline_reworked isNode reworks ?_⟩
    · simp [Deletes, Node.child?, children]
    · simp [children, replaceFirst]
  | pair opening inside closing =>
    obtain ⟨-, -, -, soundInside⟩ := sound_pair.mp sound
    obtain ⟨edits, inside', deletes, noInsertion, amends, sound', alike, same⟩ :=
      delete_first (Picks.named "version") (enclosed_of_pair stands) soundInside
    have reworks := reworks_inside sound sound' amends alike
    refine ⟨edits, _, ?_, noInsertion, reworks, outline_reworked isNode reworks ?_⟩
    · rw [Node.child?, children_of_pair isNode]
      exact deletes
    · rw [children_of_pair isNode, same, alike.outline]
  | _ => exact absurd isNode.1 (by simp [isElement])

/-- The edits that take the version from the first declaration of the artifact in a list of
dependencies, if there is one. -/
def DropsOwn (document : Document) (key : ArtifactKey) (dependencies : Node) (edits : List Edit) :
    Prop :=
  Deletes document
    ((dependencies.children.find? (declaring dependencies.name? key)).bind fun declaration =>
      declaration.child? "version") edits

/-- In a list of dependencies, the first declaration of the artifact loses its version. The
others stay as they are. -/
theorem drop_in (key : ArtifactKey) {offset : Nat} {piece : Piece} {node : Node}
    (isNode : IsNodeAt document.chars offset piece node)
    (stands : StandsAt document.chars offset (written [piece])) (sound : Sound [piece]) :
    ∃ edits piece' changed, DropsOwn document key node edits ∧ NoInsertion edits ∧
      Reworks offset piece edits piece'
        (replaceFirst (declares node.name? key) (fun _ => [changed]) piece.inside) ∧
      (∀ declaration, piece.inside.find? (declares node.name? key) = some declaration →
        changed.isElement = true ∧ changed.name? = declaration.name? ∧
          Alike changed.inside
            (replaceFirst (isNamed "version") (fun _ => []) declaration.inside)) ∧
      outlineOf [withoutOwnVersion key node] = outline [piece'] := by
  have picks := picks_declaring node.name? key
  rcases isNode.find? stands picks with ⟨notFound, noPiece⟩ | ⟨-, -, declaration, found, -⟩
  · obtain ⟨reworks, same⟩ := reworks_none isNode stands sound notFound
      fun declaration => [withoutVersion declaration]
    refine ⟨[], piece, piece, ?_, by simp [NoInsertion], ?_, fun declaration found => ?_, same⟩
    · rw [DropsOwn, notFound]
      rfl
    · rwa [replaceFirst_of_none (by simpa using List.find?_eq_none.mp noPiece)]
    · rw [noPiece] at found
      cases found
  · obtain ⟨place, own, isFirst, isOwn, standsOwn, soundOwn, around⟩ :=
      reworks_first isNode stands sound picks found
    obtain ⟨edits, changed, deletes, noInsertion, reworks, same⟩ :=
      drop_version isOwn standsOwn soundOwn
    obtain ⟨piece', whole, outline⟩ := around reworks same
    refine ⟨edits, piece', changed, ?_, noInsertion, whole, fun declaration isDeclaration => ?_,
      outline⟩
    · rw [DropsOwn, found]
      exact deletes
    · rw [isFirst] at isDeclaration
      cases isDeclaration
      exact ⟨reworks.element, reworks.name, reworks.content⟩

/-! ### A stretch of the project -/

/-- The list of the project's own dependencies, if there is one, after the first declaration of
the artifact in it has lost its first version. -/
def OwnDropped (key : ArtifactKey) : Option Piece → Option Piece → Prop
  | none, none => True
  | some own, some own' => ∃ changed,
    Alike own'.inside
      (replaceFirst (declares (some "dependencies") key) (fun _ => [changed]) own.inside) ∧
    ∀ declaration, own.inside.find? (declares (some "dependencies") key) = some declaration →
      changed.isElement = true ∧ changed.name? = declaration.name? ∧
        Alike changed.inside (replaceFirst (isNamed "version") (fun _ => []) declaration.inside)
  | _, _ => False

/-- The edits for the project's own dependencies, by the list of them. -/
def DropsFound (document : Document) (key : ArtifactKey) (found : Option Node)
    (edits : List Edit) : Prop :=
  match found with
  | none => edits = []
  | some dependencies => DropsOwn document key dependencies edits

/-- The edits drop the project's own version in a stretch of its children. -/
structure DropsIn (document : Document) (key : ArtifactKey) (offset : Nat) (stretch : List Piece)
    (edits : List Edit) (stretch' : List Piece) : Prop where
  noInsertion : NoInsertion edits
  amends : Amends offset (written stretch) edits (written stretch')
  sound : Sound stretch'
  edits : DropsFound document key
    ((nodes document.chars offset offset stretch).find? fun child =>
      child.name? == some "dependencies") edits
  outline : outlineOf (replaceFirst (fun child => child.name? == some "dependencies")
    (fun dependencies => [withoutOwnVersion key dependencies])
    (nodes document.chars offset offset stretch)) = outline stretch'
  own : OwnDropped key (stretch.find? (isNamed "dependencies"))
    (stretch'.find? (isNamed "dependencies"))
  others : ∀ name, name ≠ "dependencies" →
    stretch'.find? (isNamed name) = stretch.find? (isNamed name)

/-- Where there is no list of dependencies, nothing is dropped. -/
theorem dropsIn_none {key : ArtifactKey} {offset : Nat} {stretch : List Piece}
    (stands : StandsAt document.chars offset (written stretch)) (sound : Sound stretch)
    (none : ∀ piece ∈ stretch, isNamed "dependencies" piece = false) :
    DropsIn document key offset stretch [] stretch := by
  have noneNode : ∀ node ∈ nodes document.chars offset offset stretch,
      (node.name? == some "dependencies") = false :=
    (Picks.named "dependencies").none_of_nodes stands none
  refine ⟨by simp [NoInsertion], .keep _ _, sound, ?_, ?_, ?_, fun _ _ => rfl⟩
  · rw [find?_eq_none_of noneNode]
    rfl
  · rw [replaceFirst_of_none noneNode, outlineOf_nodes_whole stands]
  · rw [find?_eq_none_of none]
    trivial

/-- In every stretch of the project the own version can be dropped. -/
theorem exists_dropsIn (key : ArtifactKey) {offset : Nat} {stretch : List Piece}
    (stands : StandsAt document.chars offset (written stretch)) (sound : Sound stretch) :
    ∃ edits stretch', DropsIn document key offset stretch edits stretch' := by
  rcases (Picks.named "dependencies").find? offset stands with
    ⟨-, others⟩ | ⟨first, own, rest, dependencies, some, rfl, before, picked, isNode⟩
  · exact ⟨[], stretch, dropsIn_none stands sound others⟩
  · have named := isNamed_iff.mp picked
    have soundOwn : Sound [own] := (sound_cons.mp (sound_append.mp sound).2).1
    obtain ⟨edits, own', changed, drops, noInsertion, reworks, isChanged, same⟩ :=
      drop_in key isNode (standsAt_around stands).2.1 soundOwn
    rw [isNode.name?.trans named] at reworks isChanged
    have named' := reworks.name.trans named
    refine ⟨edits, first ++ own' :: rest, noInsertion, reworks.around,
      sound_around sound reworks.sound, ?_, ?_, ?_, fun name different => ?_⟩
    · rw [some]
      exact drops
    · rw [outlineOf_replaceFirst (Picks.named "dependencies") _ stands before picked isNode, same,
        ← outline_append, ← outline_append, List.append_assoc, List.singleton_append]
    · rw [find?_append_cons_of before picked, find?_append_cons_of before (isNamed_iff.mpr named')]
      exact ⟨changed, reworks.content, isChanged⟩
    · have notOwn := isNamed_eq_false named different.symm
      have notOwn' := isNamed_eq_false named' different.symm
      rw [List.find?_append, List.find?_append, List.find?_cons_of_neg (by simp [notOwn']),
        List.find?_cons_of_neg (by simp [notOwn])]

/-! ### Data behind a stretch -/

section

variable {pick : Node → Bool} {pickPiece : Piece → Bool} (picks : Picks pick pickPiece)
  {stretch : List Piece} {tail : List Char}

include picks

theorem none_of_data (chars : List Char) : ∀ piece ∈ data chars, pickPiece piece = false := by
  intro piece member
  obtain ⟨one, -, rfl⟩ := List.mem_map.mp member
  exact picks.noPiece _ rfl

theorem find?_append_data (pieces : List Piece) (chars : List Char) :
    (pieces ++ data chars).find? pickPiece = pieces.find? pickPiece := by
  rw [List.find?_append, find?_eq_none_of (none_of_data picks chars), Option.or_none]

variable {source : List Char} {inner : Nat}
  (stands : StandsAt source inner (written (stretch ++ data tail)))

include stands

/-- What is found in a stretch is found in front of the data behind it. -/
theorem find?_nodes_append_data :
    (nodes source inner inner (stretch ++ data tail)).find? pick =
      (nodes source inner inner stretch).find? pick := by
  have within : StandsAt source inner (written stretch) := by
    rw [written_append] at stands
    exact stands.left
  rcases picks.find? inner within with
    ⟨none, others⟩ | ⟨first, own, rest, node, some, rfl, before, picked, isNode⟩
  · have others' := List.forall_mem_append.mpr ⟨others, none_of_data picks tail⟩
    rw [none, find?_eq_none_of (picks.none_of_nodes stands others')]
  · obtain ⟨standsFirst, standsOwn, -⟩ := standsAt_around within
    have found : pick node = true := by rw [picks.same isNode standsOwn, picked]
    rw [some, List.append_assoc, List.cons_append, nodes_around inner isNode,
      find?_append_cons_of (picks.none_of_nodes standsFirst before) found]

/-- What is changed in a stretch is changed in front of the data behind it. -/
theorem outlineOf_replaceFirst_append_data (change : Node → List Node) :
    outlineOf (replaceFirst pick change (nodes source inner inner (stretch ++ data tail))) =
      outlineOf (replaceFirst pick change (nodes source inner inner stretch)) ++
        outline (data tail) := by
  have within : StandsAt source inner (written stretch) := by
    rw [written_append] at stands
    exact stands.left
  rcases picks.find? inner within with
    ⟨-, others⟩ | ⟨first, own, rest, node, -, rfl, before, picked, isNode⟩
  · have others' := List.forall_mem_append.mpr ⟨others, none_of_data picks tail⟩
    rw [replaceFirst_of_none (picks.none_of_nodes within others),
      replaceFirst_of_none (picks.none_of_nodes stands others'),
      outlineOf_nodes_whole within, outlineOf_nodes_whole stands, outline_append]
  · rw [outlineOf_replaceFirst picks change within before picked isNode]
    rw [List.append_assoc, List.cons_append] at stands ⊢
    rw [outlineOf_replaceFirst picks change stands before picked isNode, outline_append,
      List.append_assoc, List.append_assoc, List.append_assoc]

end

/-- Data behind a stretch change nothing. -/
theorem DropsIn.append_data {key : ArtifactKey} {offset : Nat} {stretch stretch' : List Piece}
    {edits : List Edit} (drops : DropsIn document key offset stretch edits stretch')
    {tail : List Char} (stands : StandsAt document.chars offset (written (stretch ++ data tail)))
    (noMarkup : '<' ∉ tail) :
    DropsIn document key offset (stretch ++ data tail) edits (stretch' ++ data tail) := by
  have picks := Picks.named "dependencies"
  have amends := drops.amends.append (.keep _ (written (data tail)))
  rw [List.append_nil, ← written_append, ← written_append] at amends
  refine ⟨drops.noInsertion, amends, sound_append.mpr ⟨drops.sound, sound_data.mpr noMarkup⟩, ?_, ?_,
    ?_, fun name different => ?_⟩
  · rw [find?_nodes_append_data picks stands]
    exact drops.edits
  · rw [outlineOf_replaceFirst_append_data picks stands, drops.outline, outline_append]
  · rw [find?_append_data picks, find?_append_data picks]
    exact drops.own
  · rw [find?_append_data (Picks.named name), find?_append_data (Picks.named name)]
    exact drops.others name different

/-! ### The lookup of the own version -/

theorem element_of? {parent : Option String} {node : Node} {declaration : Declaration}
    (declared : Declaration.of? parent node = some declaration) : declaration.element = node := by
  obtain ⟨kind, -, rfl⟩ := Option.map_eq_some_iff.mp declared
  rfl

/-- A declaration is looked for among all children. -/
theorem find?_declarations (container : Node) (test : Declaration → Bool) :
    (container.declarations.find? test).map Declaration.element =
      container.children.find? fun node => (Declaration.of? container.name? node).any test := by
  rw [Node.declarations, List.find?_filterMap]
  cases found : container.children.find? fun node =>
      (Declaration.of? container.name? node).any test with
  | none => rfl
  | some node =>
    have picked := List.find?_some found
    cases declared : Declaration.of? container.name? node with
    | none =>
      rw [declared] at picked
      cases picked
    | some declaration => rw [Option.bind_some, declared, Option.map_some, element_of? declared]

/-- The own dependency is the first declaration of the artifact in the list of them. -/
theorem element_directDependency? (project : Node) (key : ArtifactKey) :
    (directDependency? project key).map Declaration.element =
      (project.child? "dependencies").bind fun dependencies =>
        dependencies.children.find? (declaring dependencies.name? key) := by
  rw [directDependency?, Option.bind_eq_bind, Option.map_bind]
  exact congrArg _ (funext fun dependencies => find?_declarations dependencies _)

theorem exists_of_directDependency? {project : Node} {key : ArtifactKey}
    {declaration : Declaration} (isDeclared : directDependency? project key = some declaration) :
    ∃ dependencies, project.child? "dependencies" = some dependencies ∧
      dependencies.children.find? (declaring dependencies.name? key) = some declaration.element := by
  have looked := element_directDependency? project key
  rw [isDeclared, Option.map_some] at looked
  exact Option.bind_eq_some_iff.mp looked.symm

/-- The own version is looked for in the first declaration of the artifact. -/
theorem ownVersion_eq (project : Node) (key : ArtifactKey) :
    directDependency? project key >>= Declaration.versionElement? =
      ((project.child? "dependencies").bind fun dependencies =>
        dependencies.children.find? (declaring dependencies.name? key)).bind fun declaration =>
          declaration.child? "version" := by
  rw [← element_directDependency?, Option.bind_map]
  rfl

theorem dropOwnVersion_eq {project : Node} {key : ArtifactKey} {edits : List Edit}
    (drops : DropsFound document key (project.child? "dependencies") edits) :
    dropOwnVersion document project key = .ok edits := by
  rw [dropOwnVersion, ownVersion_eq]
  match found : project.child? "dependencies" with
  | none =>
    rw [found, DropsFound] at drops
    subst drops
    rfl
  | some dependencies =>
    rw [found, DropsFound, DropsOwn] at drops
    rw [Option.bind_some]
    cases said : (dependencies.children.find? (declaring dependencies.name? key)).bind
        fun declaration => declaration.child? "version" with
    | none =>
      rw [said, Deletes] at drops
      subst drops
      rfl
    | some version =>
      rw [said, Deletes] at drops
      obtain ⟨edit, deleted, rfl⟩ := drops
      simp [deleted, orCut, pure, Except.pure, bind, Except.bind]

end PomLens.Remedy
