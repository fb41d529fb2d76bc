/-
This file compares where a conflict is shown with where it is remedied.

A finding stands at the first declaration of the root anywhere in the document, and an excluding
remedy writes into the first one among the project's own dependencies. The positions of a span are
at most a character short of it at each end, and an element has a tag at each end, so the finding
covers the remedy if the two declarations are one. If they are two, the one that is shown ends
before the other starts, since no declaration is around a dependency of the project's own.
-/

import PomLens.Diagnosis.Finding
import PomLens.Proofs.Remedy.Placing

namespace PomLens

open Markup (Node Tree Place Declaration ReadFrom writtenOf tokensOf withoutMark)
open Remedy (directDependency? exclude Snippet Style)
open Report (Forest)

namespace Markup

/-! ### Tags around the inside -/

/-- What an element takes up besides its inside: a tag in front of it and one behind it. -/
structure Node.Tagged (text : List Char) (node : Node) : Prop where
  opening : node.range.start < node.inner.start
  closing : node.inner.stop + 3 ≤ node.range.stop
  inText : node.range.stop ≤ Text.size text

/-- An element that is not closed at once has a tag on each side of its inside. -/
theorem ReadFrom.tagged {source : List Char} {tokens : List Token} {node : Node}
    (readFrom : ReadFrom source tokens node) (element : node.isText = false)
    (open_ : node.isSelfClosing = false) : node.Tagged (writtenOf tokens) := by
  cases readFrom with
  | text => cases element
  | literal => cases element
  | single => cases open_
  | @pair before inside after opening closing children sameName whole =>
    have sizes := congrArg (Text.size ∘ writtenOf) whole
    simp only [Function.comp, writtenOf_append, writtenOf_cons, Text.size_append] at sizes
    have width : Text.size (Token.opening opening).written = Text.size opening + 2 := by
      simp [Token.written, Char.utf8Size]
      omega
    have width' : Text.size (Token.closing closing).written = Text.size closing + 3 := by
      simp [Token.written, Char.utf8Size]
      omega
    refine ⟨?_, ?_, ?_⟩ <;>
      simp [Node.range, Node.inner, elementTag, closeStop, closeStart, Piece.innerStart,
        Span.between] <;>
      omega

theorem size_withoutMark_le (text : List Char) :
    Text.size (withoutMark text) ≤ Text.size text := by
  unfold withoutMark
  split <;> simp

theorem Tree.Has.tagged {text : String} {tree : Tree} (parsed : Tree.parse text = .ok tree)
    {node child : Node} (has : tree.Has node) (member : child ∈ node.children) :
    node.Tagged text.toList := by
  have fits := has.fits parsed
  obtain ⟨place, inTree, rfl⟩ := has
  have tagged : place.node.Tagged (writtenOf (tokensOf text)) := by
    refine (Tree.readFrom_of_parse parsed place inTree).tagged ?_ ?_
    · cases same : place.node with
      | text run => simp [same, Node.children] at member
      | element tag children => rfl
    · by_contra closed
      rw [fits.alone (by simpa using closed)] at member
      cases member
  rw [writtenOf_tokensOf parsed] at tagged
  exact ⟨tagged.opening, tagged.closing, tagged.inText.trans (size_withoutMark_le _)⟩

/-! ### The first declaration and the project's own -/

/-- The declaration of the project's own list, at its place. No other declaration is around it. -/
theorem exists_place_directDependency? {tree : Tree} {key : ArtifactKey} {own : Declaration}
    (named : tree.root.name? = some "project")
    (isOwn : directDependency? tree.root key = some own) :
    ∃ place ∈ tree.places, place.declaration? = some own ∧ own.declares key ∧
      place.node = own.element ∧
      ∀ outer ∈ place.selfAndAround, outer.declaration?.isSome → outer = place := by
  obtain ⟨dependencies, isList, isFirst⟩ := Option.bind_eq_some_iff.mp isOwn
  obtain ⟨node, isChild, declared⟩ := List.mem_filterMap.mp (List.mem_of_find?_eq_some isFirst)
  obtain ⟨listMember, listNamed⟩ := Remedy.child?_mem isList
  obtain ⟨list, listChild, rfl⟩ := @Place.exists_mem_children ⟨0, tree.root, []⟩ _ listMember
  obtain ⟨place, child, rfl⟩ := Place.exists_mem_children isChild
  have listIn := (Tree.children_sublist_places tree.root_mem_places).mem listChild
  have declares : own.declares key := by simpa using List.find?_some isFirst
  refine ⟨place, (Tree.children_sublist_places listIn).mem child, ?_, declares,
    (Remedy.element_of? declared).symm, ?_⟩
  · rw [Place.declaration?, Place.parent?_of_mem_children child]
    exact declared
  · intro outer atOrAround isDeclaration
    have around : place.selfAndAround = [place, list, ⟨0, tree.root, []⟩] := by
      have listAround := siblings_around listChild
      rw [Place.selfAndAround, siblings_around child]
      cases list
      subst listAround
      rfl
    rw [around] at atOrAround
    simp only [List.mem_cons, List.not_mem_nil, or_false] at atOrAround
    rcases atOrAround with same | rfl | rfl
    · exact same
    · simp [Place.declaration?, Declaration.of?, DeclarationKind.of?, listNamed] at isDeclaration
    · simp [Place.declaration?, Declaration.of?, DeclarationKind.of?, named] at isDeclaration

theorem element_of_declaration? {place : Place} {declaration : Declaration}
    (declared : place.declaration? = some declaration) : declaration.element = place.node :=
  Remedy.element_of? declared

/-- A declaration names its artifact by a child. -/
theorem exists_child_of_declares {declaration : Declaration} {key : ArtifactKey}
    (declares : declaration.declares key) : ∃ child, child ∈ declaration.element.children := by
  obtain ⟨-, artifact⟩ := Bool.and_eq_true_iff.mp declares
  rw [beq_iff_eq, Declaration.artifact?, Node.childText?] at artifact
  obtain ⟨child, isChild, -⟩ := Option.bind_eq_some_iff.mp artifact
  exact ⟨child, (Remedy.child?_mem isChild).1⟩

/-- The lookup looks for an element and then reads what it declares. -/
theorem Tree.declarationOf?_eq_bind (tree : Tree) (key : ArtifactKey) :
    tree.declarationOf? key =
      (tree.places.find? fun place => place.declaration?.any (·.declares key)).bind
        Place.declaration? := by
  rw [Tree.declarationOf?, Tree.declarations, List.find?_filterMap]

/-- If the first declaration of an artifact is not the project's own, it ends before that one
starts. -/
theorem exists_declarationOf? {text : String} {tree : Tree} (parsed : Tree.parse text = .ok tree)
    {key : ArtifactKey} {own : Declaration} (named : tree.root.name? = some "project")
    (isOwn : directDependency? tree.root key = some own) :
    ∃ first, tree.declarationOf? key = some first ∧ tree.Has own.element ∧
      (∃ child, child ∈ own.element.children) ∧
      (first = own ∨ first.element.range.stop ≤ own.element.range.start) := by
  obtain ⟨place, inTree, declared, declares, isNode, alone⟩ :=
    exists_place_directDependency? named isOwn
  have passes : place.declaration?.any (·.declares key) := by simp [declared, declares]
  cases found : tree.places.find? fun place => place.declaration?.any (·.declares key) with
  | none => exact absurd passes (List.find?_eq_none.mp found place inTree)
  | some firstPlace =>
    obtain ⟨first, firstDeclared⟩ : ∃ first, firstPlace.declaration? = some first := by
      have picked := List.find?_some found
      cases declared : firstPlace.declaration? with
      | none => simp [declared] at picked
      | some first => exact ⟨first, rfl⟩
    refine ⟨first, by rw [tree.declarationOf?_eq_bind, found]; exact firstDeclared, ⟨place, inTree, isNode⟩,
      exists_child_of_declares declares, ?_⟩
    rcases Tree.eq_or_before_of_find? parsed found inTree passes with same | around | before
    · rw [same, declared] at firstDeclared
      exact Or.inl (Option.some.inj firstDeclared).symm
    · have same := alone firstPlace around (by rw [firstDeclared]; rfl)
      rw [same, declared] at firstDeclared
      exact Or.inl (Option.some.inj firstDeclared).symm
    · rw [element_of_declaration? firstDeclared, ← isNode]
      exact Or.inr before

end Markup

/-! ### Where the edit of an excluding remedy stands -/

namespace Remedy

variable {document : Document}

/-- What is written last stands in the inside, whether or not that can be cut out of the text. -/
theorem insertLast?_within {container : Node} {snippet : Snippet} {style : Style} {edit : Edit}
    (inserted : insertLast? document container snippet style = some edit)
    (open_ : container.isSelfClosing = false) : container.inner.encloses edit.span := by
  simp only [insertLast?, open_, Bool.false_eq_true, ↓reduceIte] at inserted
  obtain ⟨base, -, inserted⟩ := Option.bind_eq_some_iff.mp inserted
  obtain rfl := Option.some.inj inserted
  have shorter : Text.size (Text.trimEnd ((container.inner.slice? document.chars).getD [])) ≤
      container.inner.length := by
    cases cut : container.inner.slice? document.chars with
    | none => exact Nat.zero_le _
    | some content =>
      obtain ⟨blanks, split, -⟩ := Text.exists_eq_dropEndWhile_append Text.isBlank content
      have sizes := congrArg Text.size split
      rw [Text.size_append, Text.size_of_slice? cut] at sizes
      exact sizes ▸ Nat.le_add_right _ _
  have := container.inner.ordered
  rw [Span.encloses_iff]
  simp only [Span.between, Span.length] at shorter ⊢
  omega

/-- The edit of an excluding remedy stands in the inside of the dependency. -/
theorem exclude_within {tree : Tree} (parsed : Tree.parse document.text = .ok tree)
    {element child : Node} (has : tree.Has element) (member : child ∈ element.children)
    {key : ArtifactKey} {style : Style} {set : EditSet}
    (computed : excludeIn document element key style = .ok (some set)) :
    ∃ edit, set.edits = [edit] ∧ element.inner.encloses edit.span := by
  obtain ⟨edit, rfl, ⟨-, inserted⟩ | ⟨exclusions, isExclusions, -, inserted⟩⟩ :=
    exists_of_excludeIn computed
  · refine ⟨edit, List.mergeSort_singleton edit, insertLast?_within inserted ?_⟩
    by_contra closed
    rw [(has.fits parsed).alone (by simpa using closed)] at member
    cases member
  · refine ⟨edit, List.mergeSort_singleton edit, ?_⟩
    have isChild := (child?_mem isExclusions).1
    have bounds := (has.fits parsed).children.bounds exclusions isChild
    have within := le_of_fits ((has.child isChild).fits parsed)
    have ordered := exclusions.inner.ordered
    have span := insertFirst?_span inserted
    rw [Span.encloses_iff, span]
    split
    · exact bounds
    · simp only [Span.point]
      omega

end Remedy

/-! ### The finding and the remedy -/

/-- The positions of a span reach at most a character less far at each end. -/
theorem Document.spanOf_rangeOf_near {document : Document} {span : Span}
    (inText : span.stop ≤ Text.size document.chars) :
    (document.spanOf (document.rangeOf span)).start ≤ span.start ∧
      (document.spanOf (document.rangeOf span)).stop ≤ span.stop ∧
      span.stop ≤ (document.spanOf (document.rangeOf span)).stop + 3 := by
  have start := document.offsetAt_positionAt_near (span.ordered.trans inText)
  have stop := document.offsetAt_positionAt_near inText
  have := span.ordered
  simp only [spanOf, rangeOf, Span.between]
  omega

/-- A conflict that is remedied is found, at the first declaration of its root. -/
theorem exists_findings {document : Document} {forest : Forest} {index : Nat} {tree : Tree}
    (parsed : Tree.parse document.text = .ok tree) (conflict : index ∈ forest.conflicts)
    {node root : Report.Node} (isNode : forest.nodes[index]? = some node)
    (isRoot : forest.nodes[node.root]? = some root) {first : Declaration}
    (declared : tree.declarationOf? root.entry.key = some first) :
    ∃ found, findings document forest = .ok found ∧ (∃ finding ∈ found, finding.node = index) ∧
      ∀ finding ∈ found, finding.node = index →
        finding.diagnostic.range = document.rangeOf first.element.range ∧
          finding.root = root.entry.key := by
  have numbered (finding : Finding) (other : Nat)
      (found : Finding.of? document tree forest other = some finding) : finding.node = other := by
    obtain ⟨_, -, found⟩ := Option.bind_eq_some_iff.mp found
    obtain ⟨_, -, found⟩ := Option.bind_eq_some_iff.mp found
    obtain ⟨_, -, found⟩ := Option.bind_eq_some_iff.mp found
    cases found
    rfl
  obtain ⟨known, isKnown, range, rootKey⟩ : ∃ known,
      Finding.of? document tree forest index = some known ∧
        known.diagnostic.range = document.rangeOf first.element.range ∧
        known.root = root.entry.key := by
    simp only [Finding.of?, isNode, isRoot, declared, Option.bind_eq_bind, Option.bind_some]
    exact ⟨_, rfl, rfl, rfl⟩
  refine ⟨forest.conflicts.filterMap (Finding.of? document tree forest), ?_, ?_, ?_⟩
  · rw [findings, parsed]
    rfl
  · exact ⟨known, List.mem_filterMap.mpr ⟨index, conflict, isKnown⟩, numbered known index isKnown⟩
  · intro finding member same
    obtain ⟨other, -, found⟩ := List.mem_filterMap.mp member
    obtain rfl : other = index := (numbered finding other found).symm.trans same
    obtain rfl : known = finding := Option.some.inj (isKnown.symm.trans found)
    exact ⟨range, rootKey⟩

/-- If a conflict is remedied by excluding, it is found, and its finding covers every edit exactly
if the first declaration of the root in the document is the project's own dependency. -/
theorem findings_cover_exclude_iff {document : Document} {forest : Forest} {index : Nat}
    {style : Style} {set : EditSet} (conflict : index ∈ forest.conflicts)
    (excluded : exclude document forest index style = .ok (some set)) :
    ∃ tree found, Tree.parse document.text = .ok tree ∧ findings document forest = .ok found ∧
      (∃ finding ∈ found, finding.node = index) ∧
      ∀ finding ∈ found, finding.node = index →
        ((∀ edit ∈ set.edits, (document.spanOf finding.diagnostic.range).encloses edit.span) ↔
          tree.declarationOf? finding.root = directDependency? tree.root finding.root) := by
  obtain ⟨node, root, project, own, isNode, -, isRoot, isProject, isOwn, computed⟩ :=
    Remedy.exists_of_exclude excluded
  obtain ⟨parsed, -, named⟩ := Remedy.projectElement_eq_ok_iff.mp isProject
  obtain ⟨first, isFirst, has, ⟨child, isChild⟩, place⟩ :=
    Markup.exists_declarationOf? parsed named isOwn
  obtain ⟨found, areFound, exists_, all⟩ := exists_findings parsed conflict isNode isRoot isFirst
  refine ⟨_, found, parsed, areFound, exists_, fun finding member same => ?_⟩
  obtain ⟨range, rootKey⟩ := all finding member same
  obtain ⟨edit, edits, within⟩ := Remedy.exclude_within parsed has isChild computed
  have tagged := has.tagged parsed isChild
  rw [Span.encloses_iff] at within
  have insideText := tagged.inText
  have opening := tagged.opening
  have closing := tagged.closing
  have ordered := own.element.range.ordered
  have orderedEdit := edit.span.ordered
  rw [rootKey, isFirst, isOwn, range, edits, List.forall_mem_singleton, Span.encloses_iff]
  rcases place with rfl | before
  · have near := @Document.spanOf_rangeOf_near document _ insideText
    exact ⟨fun _ => rfl, fun _ => ⟨by omega, by omega⟩⟩
  · have near := @Document.spanOf_rangeOf_near document _
      (before.trans (ordered.trans insideText))
    refine ⟨fun covers => ?_, fun same => ?_⟩
    · have := covers.2
      omega
    · obtain rfl := Option.some.inj same
      omega

/-- Whether each finding covers all edits of a set. -/
def covering (document : Document) (forest : Forest) (set : EditSet) : Option (List (Nat × Bool)) :=
  (findings document forest).toOption.map fun found => found.map fun finding =>
    (finding.node, set.edits.all fun edit =>
      (document.spanOf finding.diagnostic.range).encloses edit.span)

/-- What a report, a remedy and the findings come to is seen by computing them. -/
theorem exists_of_covering {document : Document} {report : String} {index : Nat} {style : Style}
    {shown : List (Nat × Bool)}
    (computed : ((Forest.parse report).toOption.bind fun forest =>
      (exclude document forest index style).toOption.join.map fun set =>
        (forest.conflicts.contains index, covering document forest set)) =
          some (true, some shown)) :
    ∃ forest set found, Forest.parse report = .ok forest ∧ index ∈ forest.conflicts ∧
      exclude document forest index style = .ok (some set) ∧
      findings document forest = .ok found ∧
      found.map (fun finding => (finding.node, set.edits.all fun edit =>
        (document.spanOf finding.diagnostic.range).encloses edit.span)) = shown := by
  obtain ⟨forest, parsed, computed⟩ := Option.bind_eq_some_iff.mp computed
  obtain ⟨set, excluded, same⟩ := Option.map_eq_some_iff.mp computed
  obtain ⟨isConflict, covers⟩ := Prod.mk.inj same
  obtain ⟨found, areFound, shows⟩ := Option.map_eq_some_iff.mp covers
  exact ⟨forest, set, found, toOption_eq_some_iff.mp parsed, by simpa using isConflict,
    join_toOption_eq_some_iff.mp excluded,
    toOption_eq_some_iff.mp areFound, shows⟩

/-- A report of one conflict below a direct dependency. -/
def conflictReport : String :=
  "g:p:jar:1\n\\- g:a:jar:1:compile\n   \\- (g:b:jar:1:compile - omitted for conflict with 2)\n"

/-- A project with that dependency, behind something else. -/
def dependingBehind (front : String) : Document where
  path := ⟨"/ws/pom.xml"⟩
  text := "<project>" ++ front ++ "<dependencies><dependency><groupId>g</groupId>" ++
    "<artifactId>a</artifactId></dependency></dependencies></project>"

/-- A finding that covers its remedy stands at the project's own dependency. -/
theorem findings_cover_exclude_alone :
    ∃ forest set tree found, Forest.parse conflictReport = .ok forest ∧
      exclude (dependingBehind "") forest 1 Style.standard = .ok (some set) ∧
      Tree.parse (dependingBehind "").text = .ok tree ∧
      findings (dependingBehind "") forest = .ok found ∧
      ∃ finding ∈ found, finding.node = 1 ∧
        tree.declarationOf? finding.root = directDependency? tree.root finding.root := by
  obtain ⟨forest, set, found, parsed, conflict, excluded, areFound, covers⟩ :=
    @exists_of_covering (dependingBehind "") conflictReport 1 Style.standard [(1, true)]
      (by decide +kernel)
  obtain ⟨tree, _, parsedTree, same, -, iff⟩ := findings_cover_exclude_iff conflict excluded
  cases same.symm.trans areFound
  obtain ⟨finding, rfl, node, covered⟩ : ∃ finding, found = [finding] ∧ finding.node = 1 ∧
      set.edits.all fun edit =>
        ((dependingBehind "").spanOf finding.diagnostic.range).encloses edit.span := by
    obtain ⟨finding, one, shown⟩ := List.map_eq_singleton_iff.mp covers
    exact ⟨finding, one, congrArg Prod.fst shown, congrArg Prod.snd shown⟩
  exact ⟨forest, set, tree, [finding], parsed, excluded, parsedTree, same, finding,
    List.mem_cons_self, node,
    (iff finding List.mem_cons_self node).mp (List.all_eq_true.mp covered)⟩

/-- A managed dependency on the same artifact, in front of the project's own. -/
def managedInFront : Document :=
  dependingBehind ("<dependencyManagement><dependencies><dependency><groupId>g</groupId>" ++
    "<artifactId>a</artifactId><version>1</version></dependency></dependencies>" ++
    "</dependencyManagement>")

/-- The finding is shown at the managed dependency, and the remedy writes into the other. -/
theorem findings_not_cover_exclude :
    ∃ forest set found, Forest.parse conflictReport = .ok forest ∧ 1 ∈ forest.conflicts ∧
      exclude managedInFront forest 1 Style.standard = .ok (some set) ∧
      findings managedInFront forest = .ok found ∧
      ∃ finding ∈ found, finding.node = 1 ∧ ∃ edit ∈ set.edits,
        (managedInFront.spanOf finding.diagnostic.range).encloses edit.span = false := by
  obtain ⟨forest, set, found, parsed, conflict, excluded, areFound, covers⟩ :=
    @exists_of_covering managedInFront conflictReport 1 Style.standard [(1, false)]
      (by decide +kernel)
  obtain ⟨finding, rfl, shown⟩ := List.map_eq_singleton_iff.mp covers
  obtain ⟨edit, member, outside⟩ := List.all_eq_false.mp (congrArg Prod.snd shown)
  exact ⟨forest, set, [finding], parsed, conflict, excluded, areFound, finding,
    List.mem_cons_self, congrArg Prod.fst shown, edit, member, by simpa using outside⟩

end PomLens
