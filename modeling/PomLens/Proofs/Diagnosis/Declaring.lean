/-
This file says which declaration a lookup finds and what its spans hold.

Whether an element declares an artifact is said by the characters of the text: by what the first of
its children of each name say (`Place.Declares`). The lookup finds the first such element of the
document, at whatever depth it stands. The spans that come with it are those of its own children
and of no element further inside, and each holds what its child says (`Node.Spells`).
-/

import PomLens.Proofs.Diagnosis.Anchor
import PomLens.Proofs.Markup.Saying

namespace PomLens.Markup

/-! ### Elements that declare -/

/-- The element is one of those that declare artifacts. -/
inductive Place.Declaring (place : Place) : DeclarationKind → Prop
  | dependency (named : place.node.name? = some "dependency") : Declaring place .dependency
  | plugin (named : place.node.name? = some "plugin") : Declaring place .plugin
  /-- An exclusion stands directly in a list of exclusions. -/
  | exclusion {above : Place} (named : place.node.name? = some "exclusion")
    (isParent : place.parent? = some above) (list : above.node.name? = some "exclusions") :
    Declaring place .exclusion

/-- What the first child of a name says. -/
def Node.childSaid? (source : List Char) (node : Node) (name : String) : Option (List Char) :=
  node.child? name >>= Node.said? source

/-- The element declares this artifact. A plugin that says no group has the standard one. -/
structure Place.Declares (source : List Char) (key : ArtifactKey) (place : Place)
    (kind : DeclarationKind) : Prop where
  declaring : place.Declaring kind
  group : place.node.childSaid? source "groupId" = some key.group.toList ∨
    kind = .plugin ∧ place.node.childSaid? source "groupId" = none ∧
      key.group = standardPluginGroup
  artifact : place.node.childSaid? source "artifactId" = some key.artifact.toList

/-- A span for the children of a name: it holds what the first of them says, inside the element, and
there is one exactly if there are such children. -/
inductive Node.Spells (source : List Char) (node : Node) (name : String) : Option Span → Prop
  | absent (nowhere : ∀ child ∈ node.children, child.name? ≠ some name) :
    Spells source node name none
  | present {before after : List Node} {child : Node} {span : Span}
    (stands : node.children = before ++ child :: after) (named : child.name? = some name)
    (first : ∀ earlier ∈ before, earlier.name? ≠ some name)
    (inside : node.range.encloses span)
    (holds : span.slice? source = some ((child.said? source).getD [])) :
    Spells source node name (some span)

theorem declaring_iff {place : Place} {kind : DeclarationKind} :
    DeclarationKind.of? (place.parent? >>= fun outer => outer.node.name?) place.node.name? =
      some kind ↔ place.Declaring kind := by
  constructor
  · intro isKind
    unfold DeclarationKind.of? at isKind
    split at isKind
    · next named => cases isKind; exact .dependency named
    · next named => cases isKind; exact .plugin named
    · next named =>
      split at isKind
      · next list =>
        obtain ⟨above, isParent, list⟩ := Option.bind_eq_some_iff.mp list
        cases isKind
        exact .exclusion named isParent list
      · cases isKind
    · cases isKind
  · intro declaring
    cases declaring with
    | dependency named => rw [named]; rfl
    | plugin named => rw [named]; rfl
    | exclusion named isParent list =>
      rw [named, isParent, Option.bind_eq_bind, Option.bind_some, list]
      rfl

theorem declaration?_eq_some_iff {place : Place} {declaration : Declaration} :
    place.declaration? = some declaration ↔
      place.Declaring declaration.kind ∧ declaration.element = place.node := by
  rw [Place.declaration?, Declaration.of?, Option.map_eq_some_iff]
  constructor
  · rintro ⟨kind, isKind, rfl⟩
    exact ⟨declaring_iff.mp isKind, rfl⟩
  · rintro ⟨declaring, isNode⟩
    exact ⟨declaration.kind, declaring_iff.mpr declaring, by rw [← isNode]⟩

section

variable {text : String} {tree : Tree} (parsed : Tree.parse text = .ok tree)
  (unmarked : withoutMark text.toList = text.toList)

include parsed unmarked

/-- What was kept of the first child of a name is what it says. -/
theorem Tree.Has.childText?_eq {node : Node} (has : tree.Has node) (name : String) :
    node.childText? name = (node.childSaid? text.toList name).map String.ofList := by
  rw [Node.childText?, Node.childSaid?]
  cases found : node.child? name with
  | none => rfl
  | some child =>
    obtain ⟨member, named⟩ := Remedy.child?_mem found
    exact (has.child member).text?_eq parsed unmarked (Remedy.isText_of_name? named)

theorem Place.declares_iff {place : Place} (member : place ∈ tree.places)
    {declaration : Declaration} (declared : place.declaration? = some declaration)
    (key : ArtifactKey) :
    declaration.declares key ↔ place.Declares text.toList key declaration.kind := by
  obtain ⟨declaring, isNode⟩ := declaration?_eq_some_iff.mp declared
  have said (name : String) := Tree.Has.childText?_eq parsed unmarked ⟨place, member, rfl⟩ name
  have isSaid (field : String) (name : String) : place.node.childText? name = some field ↔
      place.node.childSaid? text.toList name = some field.toList := by
    rw [said, Option.map_eq_some_iff]
    constructor
    · rintro ⟨chars, isChars, rfl⟩
      rw [isChars, String.toList_ofList]
    · intro isChars
      exact ⟨_, isChars, String.ofList_toList⟩
  have isUnsaid (name : String) : place.node.childText? name = none ↔
      place.node.childSaid? text.toList name = none := by
    rw [said, Option.map_eq_none_iff]
  have isGroup : declaration.group? = some key.group ↔
      (place.node.childSaid? text.toList "groupId" = some key.group.toList ∨
        declaration.kind = .plugin ∧ place.node.childSaid? text.toList "groupId" = none ∧
          key.group = standardPluginGroup) := by
    rw [← isSaid, ← isUnsaid, Declaration.group?, isNode]
    cases place.node.childText? "groupId" with
    | some group => simp
    | none => by_cases plugin : declaration.kind = .plugin <;> simp [plugin, eq_comm]
  rw [Declaration.declares, Bool.and_eq_true, beq_iff_eq, beq_iff_eq, Declaration.artifact?,
    isNode, isSaid, isGroup]
  constructor
  · rintro ⟨group, artifact⟩
    exact ⟨declaring, group, artifact⟩
  · rintro ⟨-, group, artifact⟩
    exact ⟨group, artifact⟩

/-- What the lookup tests of an element. -/
theorem Place.passes_iff {place : Place} (member : place ∈ tree.places) (key : ArtifactKey) :
    place.declaration?.any (·.declares key) ↔ ∃ kind, place.Declares text.toList key kind := by
  rw [Option.any_eq_true]
  constructor
  · rintro ⟨declaration, declared, declares⟩
    exact ⟨_, (Place.declares_iff parsed unmarked member declared key).mp declares⟩
  · rintro ⟨kind, declares⟩
    have declared : place.declaration? = some ⟨kind, place.node⟩ :=
      declaration?_eq_some_iff.mpr ⟨declares.declaring, rfl⟩
    exact ⟨_, declared, (Place.declares_iff parsed unmarked member declared key).mpr declares⟩

theorem Node.spells_spans {node : Node} (has : tree.Has node) (name : String) :
    node.Spells text.toList name ((node.child? name).map Node.textSpan) := by
  cases found : node.child? name with
  | none =>
    refine .absent fun child member named => ?_
    exact absurd named (by simpa using List.find?_eq_none.mp found child member)
  | some child =>
    obtain ⟨named, before, after, stands, first⟩ := List.find?_eq_some_iff_append.mp found
    have member := (Remedy.child?_mem found).1
    have hasChild := has.child member
    have element := Remedy.isText_of_name? (Remedy.child?_mem found).2
    refine .present stands (by simpa using named) (fun earlier isEarlier => ?_) ?_ ?_
    · simpa using first earlier isEarlier
    · have fits := has.fits parsed
      have inside := Remedy.le_of_fits fits
      have bounds := fits.children.bounds child member
      have within := hasChild.encloses_textSpan parsed
      rw [Span.encloses_iff] at within ⊢
      omega
    · have kept := hasChild.text?_eq parsed unmarked element
      obtain ⟨place, inTree, same⟩ := hasChild
      have holds := Tree.textSpan_slice? parsed unmarked inTree
      rw [same, kept] at holds
      rw [holds]
      cases child.said? text.toList <;> simp

omit unmarked in
/-- The spans for the children of two names do not overlap. -/
theorem Node.apart_of_textSpan {node : Node} (has : tree.Has node) {name name' : String}
    (different : name ≠ name') :
    ∀ one, (node.child? name).map Node.textSpan = some one →
      ∀ other, (node.child? name').map Node.textSpan = some other →
        one.stop ≤ other.start ∨ other.stop ≤ one.start := by
  intro one isOne other isOther
  obtain ⟨first, found, rfl⟩ := Option.map_eq_some_iff.mp isOne
  obtain ⟨second, found', rfl⟩ := Option.map_eq_some_iff.mp isOther
  have apart := Remedy.apart_of_child? (has.fits parsed) found found' different
  have inFirst := (has.child (Remedy.child?_mem found).1).encloses_textSpan parsed
  have inSecond := (has.child (Remedy.child?_mem found').1).encloses_textSpan parsed
  rw [Span.encloses_iff] at inFirst inSecond
  omega

end

/-! ### The first declaration -/

theorem Place.selfAndAround_of_mem_children {place above : Place} (member : place ∈ above.children) :
    place.selfAndAround = place :: above.selfAndAround := by
  rw [Place.selfAndAround, siblings_around member]
  rfl

/-- What an element is around stands in its inside. -/
theorem Tree.le_of_around {text : String} {tree : Tree} (parsed : Tree.parse text = .ok tree)
    {outer : Place} (place : Place) (member : place ∈ tree.places) :
    outer ∈ place.selfAndAround → outer ≠ place →
      outer.node.inner.start ≤ place.node.range.start := by
  refine Tree.placeInduction ?_ ?_ place member
  · exact fun around other => absurd (List.mem_singleton.mp around) other
  intro above aboveIn place isChild inductionHypothesis around other
  have fits := Tree.fits_of_parse parsed above aboveIn
  have inside := Place.encloses_of_fits fits isChild
  have ofAbove := Remedy.le_of_fits fits
  rw [Span.encloses_iff] at inside
  rw [Place.selfAndAround_of_mem_children isChild] at around
  have further := (List.mem_cons.mp around).resolve_left other
  by_cases same : outer = above
  · rw [same]
    exact inside.1
  · have := inductionHypothesis further same
    omega

/-- The first of the places that are looked for has the smallest number and starts first. -/
theorem Tree.eq_or_lt_of_find? {text : String} {tree : Tree} (parsed : Tree.parse text = .ok tree)
    {test : Place → Bool} {first : Place} (found : tree.places.find? test = some first)
    {child : Node} (isChild : child ∈ first.node.children) {place : Place}
    (member : place ∈ tree.places) (passes : test place) :
    place = first ∨ first.index < place.index ∧
      first.node.range.start < place.node.range.start := by
  obtain ⟨-, before, after, whole, fails⟩ := List.find?_eq_some_iff_append.mp found
  have firstIn := List.mem_of_find?_eq_some found
  have tagged := Tree.Has.tagged parsed ⟨first, firstIn, rfl⟩ isChild
  have ordered := (tree.places_pairwise).and (Tree.places_inOrder parsed)
  have inPlaces := member
  rw [whole] at ordered inPlaces
  rcases List.mem_append.mp inPlaces with inFront | further
  · exact absurd passes (by simpa using fails place inFront)
  · rcases List.mem_cons.mp further with same | behind
    · exact Or.inl same
    · obtain ⟨later, order⟩ :=
        (List.pairwise_cons.mp (List.pairwise_append.mp ordered).2.1).1 place behind
      refine Or.inr ⟨later, ?_⟩
      have opening := tagged.opening
      rcases order with around | ends
      · have different : first ≠ place := fun same => absurd later (by rw [same]; exact lt_irrefl _)
        have := Tree.le_of_around parsed place member around different
        omega
      · have := tagged.closing
        have := first.node.inner.ordered
        omega

/-- The lookup is faithful. In a text without a byte order mark it finds the declaration of an
artifact that comes first of all, at any depth, and finds none only if there is none. The spans of
the declaration are for its own children: there is one for each name that these have, inside the
element, and it holds what the first child of that name says, or nothing if that says nothing. No two
of them overlap. -/
theorem Tree.declarationOf?_faithful {text : String} {tree : Tree}
    (parsed : Tree.parse text = .ok tree) (noMark : ¬ Remedy.BeginsWithMark text)
    (key : ArtifactKey) :
    (tree.declarationOf? key = none ↔
      ∀ place ∈ tree.places, ∀ kind, ¬ place.Declares text.toList key kind) ∧
    ∀ declaration, tree.declarationOf? key = some declaration →
      (∃ place ∈ tree.places, declaration.element = place.node ∧
        place.Declares text.toList key declaration.kind ∧
        ∀ other ∈ tree.places, ∀ kind, other.Declares text.toList key kind →
          other = place ∨ place.index < other.index ∧
            place.node.range.start < other.node.range.start) ∧
      declaration.element.Spells text.toList "groupId" declaration.spans.group ∧
      declaration.element.Spells text.toList "artifactId" declaration.spans.artifact ∧
      declaration.element.Spells text.toList "version" declaration.spans.version ∧
      [declaration.spans.group, declaration.spans.artifact, declaration.spans.version].Pairwise
        fun first second => ∀ one, first = some one → ∀ other, second = some other →
          one.stop ≤ other.start ∨ other.stop ≤ one.start := by
  have unmarked := Remedy.withoutMark_eq noMark
  have passes (place : Place) (member : place ∈ tree.places) :=
    Place.passes_iff parsed unmarked member key
  cases found : tree.places.find? fun place => place.declaration?.any (·.declares key) with
  | none =>
    rw [tree.declarationOf?_eq_bind, found]
    refine ⟨iff_of_true rfl fun place member kind declares => ?_, fun _ none => by cases none⟩
    exact List.find?_eq_none.mp found place member ((passes place member).mpr ⟨kind, declares⟩)
  | some place =>
    have member := List.mem_of_find?_eq_some found
    have picked := List.find?_some found
    obtain ⟨kind, ofKind⟩ := (passes place member).mp picked
    have declared : place.declaration? = some ⟨kind, place.node⟩ :=
      declaration?_eq_some_iff.mpr ⟨ofKind.declaring, rfl⟩
    rw [tree.declarationOf?_eq_bind, found, Option.bind_some, declared]
    refine ⟨iff_of_false (by simp) fun nowhere => nowhere place member kind ofKind, ?_⟩
    rintro _ ⟨⟩
    have has : tree.Has place.node := ⟨place, member, rfl⟩
    obtain ⟨child, isChild⟩ :=
      exists_child_of_declares ((Place.declares_iff parsed unmarked member declared key).mpr ofKind)
    refine ⟨⟨place, member, rfl, ofKind, fun other otherIn otherKind declares => ?_⟩,
      Node.spells_spans parsed unmarked has _, Node.spells_spans parsed unmarked has _,
      Node.spells_spans parsed unmarked has _, ?_⟩
    · exact Tree.eq_or_lt_of_find? parsed found isChild otherIn
        ((passes other otherIn).mpr ⟨otherKind, declares⟩)
    · simp only [List.pairwise_cons, List.forall_mem_cons, List.not_mem_nil, false_imp_iff,
        implies_true, List.Pairwise.nil, and_true]
      exact ⟨⟨Node.apart_of_textSpan parsed has (by decide),
        Node.apart_of_textSpan parsed has (by decide)⟩,
        Node.apart_of_textSpan parsed has (by decide)⟩

/-- A dependency of a plugin, both on artifacts of one name. -/
def pluginDependency : String :=
  "<p><plugin><artifactId>a</artifactId><dependencies><dependency><groupId> g </groupId>" ++
    "<artifactId>a</artifactId></dependency></dependencies></plugin></p>"

/-- The dependency is found by its group and the plugin by the group that it does not say. -/
theorem Tree.declarationOf?_pluginDependency :
    ∃ tree inner outer, Tree.parse pluginDependency = .ok tree ∧
      tree.declarationOf? ⟨"g", "a"⟩ = some inner ∧ inner.kind = .dependency ∧
      inner.element.Spells pluginDependency.toList "groupId" (some (Span.between 73 74)) ∧
      inner.element.Spells pluginDependency.toList "version" none ∧
      tree.declarationOf? ⟨standardPluginGroup, "a"⟩ = some outer ∧ outer.kind = .plugin ∧
      outer.element.Spells pluginDependency.toList "groupId" none := by
  have noMark : ¬ Remedy.BeginsWithMark pluginDependency := by
    unfold Remedy.BeginsWithMark
    decide +kernel
  have answer : (Tree.parse pluginDependency).map (fun tree =>
      ((tree.declarationOf? ⟨"g", "a"⟩).map (·.spans),
        (tree.declarationOf? ⟨standardPluginGroup, "a"⟩).map (·.spans))) =
      .ok (some ⟨.dependency, Span.between 51 124, some (Span.between 73 74),
          some (Span.between 97 98), none⟩,
        some ⟨.plugin, Span.between 3 148, none, some (Span.between 23 24), none⟩) := by
    decide +kernel
  obtain ⟨tree, parsed, shown⟩ := Tree.exists_of_map_parse answer
  obtain ⟨ofInner, ofOuter⟩ := Prod.mk.inj shown
  obtain ⟨inner, isInner, innerShown⟩ := Option.map_eq_some_iff.mp ofInner
  obtain ⟨outer, isOuter, outerShown⟩ := Option.map_eq_some_iff.mp ofOuter
  obtain ⟨-, group, -, version, -⟩ :=
    (Tree.declarationOf?_faithful parsed noMark ⟨"g", "a"⟩).2 inner isInner
  obtain ⟨-, unsaid, -⟩ :=
    (Tree.declarationOf?_faithful parsed noMark ⟨standardPluginGroup, "a"⟩).2 outer isOuter
  rw [innerShown] at group version
  rw [outerShown] at unsaid
  exact ⟨tree, inner, outer, parsed, isInner, congrArg DeclarationSpans.kind innerShown, group,
    version, isOuter, congrArg DeclarationSpans.kind outerShown, unsaid⟩

end PomLens.Markup
