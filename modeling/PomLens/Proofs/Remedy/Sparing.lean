/-
This file proves that a remedy leaves the rest of a document as it is.

What a remedy takes away is known: the version of the project's own dependency, and the managed
dependency that gives way to a new one (`replaced`). All tokens outside of these are still there
in the new text, in their order, but for the attributes of a self-closing tag that something is
written into (`Spares`). Such a tag is written anew with its name alone. So whether the attributes
are still there depends on whether an edit meets a tag that has some, and where one does there are
fewer tags with attributes in the new text than there have to be.
-/

import PomLens.Proofs.Remedy.Changing
import PomLens.Proofs.Remedy.Excluding

namespace PomLens

open Markup

/-! ### What is still there -/

/-- One of the edits puts the opening tag in place of the self-closing one. It has the same name
and nothing else. -/
def Expanded (text : List Char) (edits : List Edit) (body opening : List Char) : Prop :=
  opening = (tagName body).toList ∧ ∃ edit ∈ edits, edit.Rewrites text body

/-- The opening tag has the name and the attributes of the self-closing one. -/
def SameTag (body opening : List Char) : Prop :=
  tagName opening = tagName body ∧ attributes opening = attributes body

/-- The set of edits leaves all tokens of the document outside the removed spans. -/
structure Spares (document : Document) (removed : List Span) (set : EditSet) (new : String) :
    Prop where
  applied : set.applyTo document.text = .ok new
  /-- The new text is read to its end. -/
  complete : (scan new.toList).2 = none
  /-- All is still there, but perhaps for the attributes of self-closing tags that were met. -/
  tokens : Survives (Expanded document.chars set.added)
    (tokensOutside removed (scan document.chars).1) (scan new.toList).1
  /-- The attributes are still there as well if no tag that was met had any, and not otherwise. -/
  attributes : Survives SameTag (tokensOutside removed (scan document.chars).1)
      (scan new.toList).1 ↔
    ∀ edit ∈ set.added, ∀ body, edit.Rewrites document.chars body → attributes body = []

/-- A name has no blanks, so all of it is the name again. -/
theorem sameTag_tagName {body : List Char} (bare : attributes body = []) :
    SameTag body (tagName body).toList := by
  have noBlank : ∀ char ∈ (tagName body).toList, isTagBlank char = false := by
    intro char member
    rw [tagName, String.toList_ofList] at member
    simpa using List.mem_takeWhile_imp member
  refine ⟨?_, (Remedy.attributes_eq_nil noBlank).trans bare.symm⟩
  rw [tagName, List.takeWhile_eq_self_iff.mpr fun char member => by simp [noBlank char member],
    String.ofList_toList]

namespace Remedy

variable {document : Document} {tree : Tree} {removed removed' : List Span}
  {edits edits' : List Edit}

/-! ### All changes of a remedy -/

theorem Change.weaken {edit : Edit} (change : Change document tree removed edit)
    (more : removed ⊆ removed') : Change document tree removed' edit := by
  cases change with
  | takes has isRemoved deleted => exact .takes has (more isRemoved) deleted
  | writes has named plain legible regular inserted =>
    exact .writes has named plain legible regular inserted

/-- Edits that take away some elements and write snippets. -/
structure Changes (document : Document) (tree : Tree) (removed : List Span) (edits : List Edit) :
    Prop where
  each : ∀ edit ∈ edits, Change document tree removed edit
  covered : ∀ span ∈ removed, ∃ edit ∈ edits, edit.text = "" ∧ edit.span.encloses span = true

namespace Changes

theorem writes {edit : Edit} (change : Change document tree [] edit) :
    Changes document tree [] [edit] :=
  ⟨by simpa using change, by simp⟩

theorem append (first : Changes document tree removed edits)
    (second : Changes document tree removed' edits') :
    Changes document tree (removed ++ removed') (edits ++ edits') := by
  refine ⟨fun edit member => ?_, fun span isRemoved => ?_⟩
  · rcases List.mem_append.mp member with inFirst | inSecond
    · exact (first.each edit inFirst).weaken (List.subset_append_left _ _)
    · exact (second.each edit inSecond).weaken (List.subset_append_right _ _)
  · rcases List.mem_append.mp isRemoved with byFirst | bySecond
    · obtain ⟨edit, member, covers⟩ := first.covered span byFirst
      exact ⟨edit, List.mem_append_left _ member, covers⟩
    · obtain ⟨edit, member, covers⟩ := second.covered span bySecond
      exact ⟨edit, List.mem_append_right _ member, covers⟩

/-- An edit that takes an element away covers it. -/
theorem of_deletes {found : Option Node} (deletes : Deletes document found edits)
    (has : ∀ node ∈ found, tree.Has node) :
    Changes document tree (found.toList.map Node.range) edits := by
  cases found with
  | none =>
    rw [Deletes] at deletes
    subst deletes
    exact ⟨by simp, by simp⟩
  | some node =>
    obtain ⟨edit, deleted, rfl⟩ := deletes
    obtain ⟨front, lead, covered, tail, back, removes⟩ := exists_removes deleted
    refine ⟨?_, ?_⟩
    · simpa using Change.takes (has node rfl) (by simp) deleted
    · have start := removes.start
      have stop := removes.stop
      rw [Text.size_append] at start stop
      refine List.forall_mem_singleton.mpr ⟨edit, List.mem_singleton_self edit, ?_, ?_⟩
      · rw [removes.edit]
        rfl
      · rw [removes.edit, Edit.delete, Span.encloses_iff, Span.start_between,
          Span.stop_between_add, Text.size_append, Text.size_append]
        omega

/-- A tag that is written anew is not inside an element that is taken away, since the edits do not
meet. -/
theorem free (changes : Changes document tree removed edits) (apart : edits.Pairwise Edit.Apart)
    {edit : Edit} (member : edit ∈ edits) {body : List Char}
    (rewrites : edit.Rewrites document.chars body) :
    ∀ span ∈ removed, span.encloses edit.span = false := by
  intro span isRemoved
  obtain ⟨other, isOther, noText, covers⟩ := changes.covered span isRemoved
  have different : other ≠ edit := fun same => rewrites.1 (same ▸ noText)
  have symmetric : Std.Symm Edit.Apart := ⟨fun _ _ => Edit.Apart.symm⟩
  have away : other.Apart edit := apart.forall isOther member different
  have wide := Text.size_of_slice? rewrites.2
  have width : Text.size (Token.selfClosing body).written ≠ 0 := fun none => by
    simpa [Token.written] using Text.size_eq_zero_iff.mp none
  rw [wide, Span.length] at width
  rw [Edit.Apart] at away
  rw [← Bool.not_eq_true, Span.encloses_iff]
  rw [Span.encloses_iff] at covers
  omega

variable {set : EditSet} (parsed : Tree.parse document.text = .ok tree)
  (unmarked : withoutMark document.text.toList = document.text.toList)
  (rests : ∀ edit ∈ set.added, edit.span.Rests document.chars)
  (apart : set.added.Pairwise Edit.Apart)

include parsed unmarked rests apart

/-- What survives in the new text, for any tags that the rewritten ones may expand to. -/
theorem exists_new (changes : Changes document tree removed set.added)
    {expands : List Char → List Char → Prop}
    (allowed : ∀ edit ∈ set.added, ∀ body, edit.Rewrites document.chars body →
      expands body (tagName body).toList) :
    ∃ new, set.applyTo document.text = .ok new ∧ (scan new.toList).2 = none ∧
      Survives expands (tokensOutside removed (scan document.chars).1) (scan new.toList).1 ∧
      ((∃ edit ∈ set.added, Costs document edit) → attributed (scan new.toList).1 <
        attributed (tokensOutside removed (scan document.chars).1)) := by
  have whole := (tokens_of_parse parsed unmarked).1
  have cut := @cut_bits removed 0 _ (scan_legible document.chars).1
  have follow : Follow document.chars set.edits :=
    follow_edits_iff.mpr ⟨fun edit member => Edit.fits_of_rests (rests edit member), apart⟩
  obtain ⟨_, ordered⟩ := @Follow.exists_amends [] _ _ follow (by simp)
  have splices : ∀ edit ∈ set.edits,
      Splices expands (Costs document) (bitsOf document removed) edit := by
    intro edit member
    have added := set.edits_perm.mem_iff.mp member
    exact (changes.each edit added).splices parsed unmarked (allowed edit added)
      fun _ => changes.free apart added
  have within : GoneWithin set.edits 0 (bitsOf document removed) := by
    refine goneWithin_frayed (fun span isRemoved => ?_) _
    obtain ⟨edit, member, -, covers⟩ := changes.covered span isRemoved
    exact ⟨edit, set.edits_perm.mem_iff.mpr member, covers⟩
  obtain ⟨new, makes⟩ :=
    @exists_makes expands (Costs document) [] (bitsOf document removed) set.edits
      (fun bit member => (cut bit member).2.solid) (fun bit member => (cut bit member).1) splices
      ordered.ordered (fun _ _ => Nat.zero_le _) within
  have read := scan_joined makes.legible (List.not_mem_nil (a := '<'))
  rw [List.nil_append] at read
  have kept : Bit.kept (bitsOf document removed) =
      (tokensOutside removed (scan document.chars).1).flatMap Token.parts := Bit.kept_frayed _
  have survives := makes.survives
  have amends := makes.amends
  rw [kept] at survives
  rw [bitsOf, written_bits, whole] at amends
  refine ⟨String.ofList (writtenOf new), amends.applyTo, ?_⟩
  rw [String.toList_ofList, read]
  refine ⟨rfl, survives.of_parts.joined [], fun costs => ?_⟩
  obtain ⟨edit, member, costsEdit⟩ := costs
  have fewer := makes.costly ⟨edit, set.edits_perm.mem_iff.mpr member, costsEdit⟩
  rwa [kept, attributed_parts, ← attributed_joined [] new] at fewer

/-- The edits of a remedy leave everything that is not removed. -/
theorem exists_spared (changes : Changes document tree removed set.added) :
    ∃ new, Spares document removed set new := by
  have expanded : ∀ edit ∈ set.added, ∀ body, edit.Rewrites document.chars body →
      Expanded document.chars set.added body (tagName body).toList :=
    fun edit member body rewrites => ⟨rfl, edit, member, rewrites⟩
  obtain ⟨new, applied, complete, tokens, costly⟩ :=
    changes.exists_new parsed unmarked rests apart expanded
  refine ⟨new, applied, complete, tokens, fun survives edit member body rewrites => ?_,
    fun bare => ?_⟩
  · -- Else there would be fewer tags with attributes in the new text than survive in it.
    by_contra some
    have fewer := costly ⟨edit, member, body, rewrites, some⟩
    have notFewer := survives.attributed_le fun _ _ same => same.2
    omega
  · obtain ⟨new', applied', -, survives, -⟩ :=
      changes.exists_new parsed unmarked rests apart fun edit member body rewrites =>
        sameTag_tagName (bare edit member body rewrites)
    obtain rfl : new = new' := Except.ok.inj (applied.symm.trans applied')
    exact survives

end Changes

/-! ### Both remedies -/

/-- The managed dependency on an artifact. -/
def managed? (project : Node) (key : ArtifactKey) : Option Node := do
  let management ← project.child? "dependencyManagement"
  let dependencies ← management.child? "dependencies"
  matchingChild? dependencies "dependency" key

/-- The elements that a pinning remedy takes away: the version of the project's own dependency, and
the managed dependency that gives way to a new one. -/
def replaced (project : Node) (key : ArtifactKey) : List Node :=
  (directDependency? project key >>= Declaration.versionElement?).toList ++
    (managed? project key).toList

theorem manage_changes {project : Node} (has : tree.Has project)
    (named : project.name? = some "project") {key : ArtifactKey} {version : String} {style : Style}
    (writable : Writable key version) (regular : style.Regular)
    (computed : manage document project key version style = .ok edits) :
    Changes document tree ((managed? project key).toList.map Node.range) edits := by
  rcases writes_of_manage computed with
    ⟨none, edit, inserted, rfl⟩ | ⟨management, older, edit, isManagement, writes, rfl⟩
  · rw [managed?, none]
    exact .writes (.writes has named (by decide) (legible_wholeManagement writable) regular
      (Or.inr inserted))
  · have hasManagement := has.child (child?_mem isManagement).1
    match found : management.child? "dependencies" with
    | none =>
      rw [WritesManaged, found] at writes
      obtain ⟨rfl, inserted⟩ := writes
      rw [managed?, isManagement, Option.bind_eq_bind, Option.bind_some, found]
      exact .writes (.writes hasManagement (child?_mem isManagement).2 (by decide)
        (legible_wrapped writable) regular (Or.inl inserted))
    | some list =>
      rw [WritesManaged, found] at writes
      obtain ⟨deletes, inserted⟩ := writes
      have hasList := hasManagement.child (child?_mem found).1
      have lookup : managed? project key =
          list.children.find? (managing list.name? key) := by
        rw [managed?, isManagement, Option.bind_eq_bind, Option.bind_some, found]
        exact matchingChild?_eq list "dependency" key
      rw [← lookup] at deletes
      have removes : Changes document tree ((managed? project key).toList.map Node.range) older :=
        .of_deletes deletes fun node isNode => by
          rw [lookup] at isNode
          exact hasList.child (List.mem_of_find?_eq_some isNode)
      have inserts : Changes document tree [] [edit] :=
        .writes (.writes hasList (child?_mem found).2 (by decide) (legible_managed writable)
          regular (Or.inl inserted))
      simpa using removes.append inserts

theorem pin_changes {project : Node} (has : tree.Has project)
    (named : project.name? = some "project") {key : ArtifactKey} {version : String} {style : Style}
    (writable : Writable key version) (regular : style.Regular)
    (drops : dropOwnVersion document project key = .ok edits)
    (manages : manage document project key version style = .ok edits') :
    Changes document tree ((replaced project key).map Node.range) (edits ++ edits') := by
  have removes : Changes document tree ((directDependency? project key >>=
      Declaration.versionElement?).toList.map Node.range) edits :=
    .of_deletes (deletes_of_dropOwnVersion drops) fun node isNode => by
      obtain ⟨declaration, own, isVersion⟩ := Option.bind_eq_some_iff.mp isNode
      obtain ⟨dependencies, isList, isFirst⟩ := exists_of_directDependency? own
      have hasList := has.child (child?_mem isList).1
      exact (hasList.child (List.mem_of_find?_eq_some isFirst)).child (child?_mem isVersion).1
  rw [replaced, List.map_append]
  exact removes.append (manage_changes has named writable regular manages)

/-- A declaration has one of few names. -/
theorem plainName_of_declaring {parent : Option String} {key : ArtifactKey} {node : Node}
    (declared : declaring parent key node = true) :
    ∃ name, node.name? = some name ∧ plainName name.toList := by
  obtain ⟨declaration, isDeclaration, -⟩ := (Option.any_eq_true _ _).mp declared
  obtain ⟨kind, isKind, -⟩ := Option.map_eq_some_iff.mp isDeclaration
  unfold DeclarationKind.of? at isKind
  split at isKind
  · next named => exact ⟨"dependency", named, by decide⟩
  · next named => exact ⟨"plugin", named, by decide⟩
  · next named => exact ⟨"exclusion", named, by decide⟩
  · cases isKind

theorem excludeIn_changes {element : Node} (has : tree.Has element) {name : String}
    (named : element.name? = some name) (plain : plainName name.toList) {key : ArtifactKey}
    (excludable : Excludable key) {style : Style} (regular : style.Regular) {set : EditSet}
    (computed : excludeIn document element key style = .ok (some set)) :
    Changes document tree [] set.added := by
  obtain ⟨edit, rfl, ⟨-, inserted⟩ | ⟨exclusions, isExclusions, -, inserted⟩⟩ :=
    exists_of_excludeIn computed
  · exact .writes (.writes has named plain (legible_wholeExclusions excludable) regular
      (Or.inr inserted))
  · obtain ⟨member, namedExclusions⟩ := child?_mem isExclusions
    exact .writes (.writes (has.child member) namedExclusions (by decide)
      (legible_newExclusion excludable) regular (Or.inl inserted))

section

variable {style : Style} (noMark : ¬ BeginsWithMark document.text) (regular : style.Regular)

include noMark regular

theorem pin_spares {key : ArtifactKey} {effective chosen : String} {set : EditSet}
    (writable : Writable key chosen)
    (computed : pin document key effective chosen style = .ok (some set)) :
    ∃ project new, projectElement document = .ok project ∧
      Spares document ((replaced project key).map Node.range) set new := by
  have unmarked : withoutMark document.text.toList = document.text.toList := withoutMark_eq noMark
  obtain ⟨project, dropped, written, isProject, drops, manages, rfl⟩ := exists_of_pin computed
  obtain ⟨parsed, -, named⟩ := projectElement_eq_ok_iff.mp isProject
  obtain ⟨rests, apart⟩ := pin_placed parsed unmarked computed
  have changes := pin_changes (Tree.has_root ⟨project⟩) named writable regular drops manages
  obtain ⟨new, spares⟩ := changes.exists_spared parsed unmarked rests apart
  exact ⟨project, new, isProject, spares⟩

theorem exclude_spares {forest : Report.Forest} {index : Nat} {node : Report.Node} {set : EditSet}
    (isNode : forest.nodes[index]? = some node) (excludable : Excludable node.entry.key)
    (computed : exclude document forest index style = .ok (some set)) :
    ∃ new, Spares document [] set new := by
  have unmarked : withoutMark document.text.toList = document.text.toList := withoutMark_eq noMark
  obtain ⟨node', root, project, declaration, isNode', -, -, isProject, isDeclared, writes⟩ :=
    exists_of_exclude computed
  obtain rfl := Option.some.inj (isNode'.symm.trans isNode)
  have parsed := (projectElement_eq_ok_iff.mp isProject).1
  obtain ⟨rests, apart⟩ := exclude_placed parsed unmarked computed
  obtain ⟨dependencies, isList, isFirst⟩ := exists_of_directDependency? isDeclared
  obtain ⟨name, named, plain⟩ := plainName_of_declaring (List.find?_some isFirst)
  have has := ((Tree.has_root ⟨project⟩).child (child?_mem isList).1).child
    (List.mem_of_find?_eq_some isFirst)
  have changes := excludeIn_changes has named plain excludable regular writes
  exact changes.exists_spared parsed unmarked rests apart

end

/-- A remedy loses nothing else than the elements that it takes away, and the attributes of a
self-closing tag that it writes into. -/
theorem spares_of_remedy (document : Document) (style : Style)
    (noMark : ¬ BeginsWithMark document.text) (regular : style.Regular) :
    (∀ key effective chosen set, Writable key chosen →
      pin document key effective chosen style = .ok (some set) →
      ∃ project new, projectElement document = .ok project ∧
        Spares document ((replaced project key).map Node.range) set new) ∧
    ∀ (forest : Report.Forest) index node set, forest.nodes[index]? = some node →
      Excludable node.entry.key → exclude document forest index style = .ok (some set) →
      ∃ new, Spares document [] set new :=
  ⟨fun _ _ _ _ writable computed => pin_spares noMark regular writable computed,
    fun _ _ _ _ isNode excludable computed =>
      exclude_spares noMark regular isNode excludable computed⟩

/-- A dependency that pulls another one in. -/
def pulling : Report.Forest where
  header := none
  nodes := #[⟨⟨"g", "a", "jar", none, "1", "compile", false, none⟩, none, 0, 0, 1, [1]⟩,
    ⟨⟨"h", "b", "jar", none, "1", "compile", false, none⟩, some 0, 0, 1, 2, []⟩]
  roots := [0]

theorem spares_of_remedy_ownDeclaration :
    (∃ set project new, pin ownDeclaration ⟨"g", "a"⟩ "1" "2" Style.standard = .ok (some set) ∧
      projectElement ownDeclaration = .ok project ∧
      Spares ownDeclaration ((replaced project ⟨"g", "a"⟩).map Node.range) set new) ∧
    ∃ set new, exclude ownDeclaration pulling 1 Style.standard = .ok (some set) ∧
      Spares ownDeclaration [] set new := by
  obtain ⟨pins, excludes⟩ := spares_of_remedy ownDeclaration Style.standard noMark_ownDeclaration
    Style.regular_standard
  constructor
  · obtain ⟨set, computes, -⟩ := pin_ownDeclaration
    obtain ⟨project, new, isProject, spares⟩ := pins ⟨"g", "a"⟩ "1" "2" set
      ⟨by decide +kernel, by decide +kernel, by decide +kernel⟩ computes
    exact ⟨set, project, new, computes, isProject, spares⟩
  · have writes :
        (exclude ownDeclaration pulling 1 Style.standard).toOption.join.isSome = true := by
      decide +kernel
    obtain ⟨set, isSet⟩ := Option.isSome_iff_exists.mp writes
    have computes := toOption_eq_some_iff.mp (Option.join_eq_some_iff.mp isSet)
    obtain ⟨new, spares⟩ := excludes pulling 1 _ set rfl
      ⟨by decide +kernel, by decide +kernel, by decide +kernel, by decide +kernel⟩ computes
    exact ⟨set, new, computes, spares⟩

/-- Nothing is managed yet in the element that is to hold what is managed, but it has an
attribute. -/
def emptyManagement : Document where
  path := ⟨"/p/pom.xml"⟩
  text := "<project>\n  <dependencyManagement combine.children=\"append\"/>\n</project>"

/-- The attribute is not in the new text. -/
theorem pin_emptyManagement :
    ∃ set project new, pin emptyManagement ⟨"g", "a"⟩ "1" "2" Style.standard = .ok (some set) ∧
      projectElement emptyManagement = .ok project ∧
      set.applyTo emptyManagement.text = .ok new ∧
      ¬ Survives SameTag
        (tokensOutside ((replaced project ⟨"g", "a"⟩).map Node.range)
          (scan emptyManagement.chars).1) (scan new.toList).1 := by
  let body := "dependencyManagement combine.children=\"append\"".toList
  have noMark : ¬ BeginsWithMark emptyManagement.text := by
    unfold BeginsWithMark
    decide +kernel
  have writes : (pin emptyManagement ⟨"g", "a"⟩ "1" "2" Style.standard).toOption.join.map
      (fun set => set.added.map fun edit =>
        (decide (edit.text = ""), edit.span.slice? emptyManagement.chars)) =
      some [(false, some (Token.selfClosing body).written)] := by decide +kernel
  obtain ⟨set, isSet, shown⟩ := Option.map_eq_some_iff.mp writes
  obtain ⟨edit, only, same⟩ := List.map_eq_singleton_iff.mp shown
  obtain ⟨written, covered⟩ := Prod.mk.inj same
  have computes := toOption_eq_some_iff.mp (Option.join_eq_some_iff.mp isSet)
  obtain ⟨project, new, isProject, spares⟩ := pin_spares noMark Style.regular_standard
    ⟨by decide +kernel, by decide +kernel, by decide +kernel⟩ computes
  refine ⟨set, project, new, computes, isProject, spares.applied, fun survives => ?_⟩
  have bare : attributes body = [] :=
    spares.attributes.mp survives edit (by simp [only]) body ⟨of_decide_eq_false written, covered⟩
  exact absurd bare (by decide +kernel)

end Remedy

end PomLens
