/-
This file says what is found at an offset.

The search descends from the root. An element around the offset is always taken, and of
overlapping elements there are none, so the descent passes through every element that contains
the offset (`Tree.descend_eq_of_contains`). What it ends at is innermost. Text is taken only where
no element is, and also at the offset behind it, and of two texts that meet there the first is
taken. If that one is blank nothing is found, even if the other one is not.
-/

import PomLens.Proofs.Markup.Denoting
import PomLens.Proofs.Markup.Nesting

namespace PomLens.Markup

open Place (selfAndAround)

/-! ### One step down -/

theorem Place.childAt?_eq (offset : Nat) (place : Place) :
    place.childAt? offset =
      (place.children.find? fun child =>
        !child.node.isText && child.node.range.contains offset).or
      (place.children.find? fun child =>
        child.node.isText && child.node.range.touches offset) := by
  rw [Place.childAt?, Option.orElse_eq_orElse, Option.orElse_eq_or]

theorem Place.descend_of_none {offset : Nat} {place : Place}
    (none : place.childAt? offset = none) : place.descend offset = place := by
  rw [Place.descend]
  split
  · rfl
  · next child found => cases none.symm.trans found

theorem Place.descend_of_some {offset : Nat} {place child : Place}
    (found : place.childAt? offset = some child) :
    place.descend offset = child.descend offset := by
  rw [Place.descend]
  split
  · next none => cases none.symm.trans found
  · next other same => rw [Option.some.inj (same.symm.trans found)]

/-- An offset lies in at most one of several siblings. -/
theorem Place.eq_of_contains {place first second : Place} (fits : place.node.Fits)
    (isFirst : first ∈ place.children) (isSecond : second ∈ place.children) {offset : Nat}
    (inFirst : first.node.range.contains offset) (inSecond : second.node.range.contains offset) :
    first = second := by
  by_contra different
  have apart := (Place.apart_of_fits fits).imp (S := fun earlier later : Place =>
      ¬ (earlier.node.range.contains offset ∧ later.node.range.contains offset))
    fun ordered => by simp [Span.contains]; omega
  have symmetric : Std.Symm fun earlier later : Place =>
      ¬ (earlier.node.range.contains offset ∧ later.node.range.contains offset) :=
    ⟨fun _ _ separate both => separate both.symm⟩
  exact apart.forall isFirst isSecond different ⟨inFirst, inSecond⟩

/-- An element at the offset is descended into. -/
theorem Place.childAt?_element {place child : Place} (fits : place.node.Fits)
    (isChild : child ∈ place.children) (element : child.node.isText = false) {offset : Nat}
    (contains : child.node.range.contains offset) : place.childAt? offset = some child := by
  rw [Place.childAt?_eq]
  cases found : place.children.find? fun child =>
      !child.node.isText && child.node.range.contains offset with
  | none =>
    have missed := List.find?_eq_none.mp found child isChild
    simp [element, contains] at missed
  | some other =>
    have fulfilled := List.find?_some found
    simp only [Bool.and_eq_true] at fulfilled
    rw [Option.some_or, Place.eq_of_contains fits (List.mem_of_find?_eq_some found) isChild
      fulfilled.2 contains]

/-- At an offset in a text the descent goes to this text, or to one that ends where it starts. -/
theorem Place.childAt?_text {place child : Place} (fits : place.node.Fits)
    (isChild : child ∈ place.children) (text : child.node.isText) {offset : Nat}
    (contains : child.node.range.contains offset) :
    ∃ first ∈ place.children, place.childAt? offset = some first ∧ first.node.isText ∧
      first.node.range.touches offset ∧
      (first = child ∨ first.node.range.stop ≤ child.node.range.start) := by
  have noElement : (place.children.find? fun child =>
      !child.node.isText && child.node.range.contains offset) = none := by
    refine List.find?_eq_none.mpr fun other isOther fulfilled => ?_
    simp only [Bool.and_eq_true, Bool.not_eq_true'] at fulfilled
    have same := Place.eq_of_contains fits isOther isChild fulfilled.2 contains
    rw [same, text] at fulfilled
    cases fulfilled.1
  have touches : child.node.range.touches offset := by
    simp [Span.contains, Span.touches] at contains ⊢
    omega
  rw [Place.childAt?_eq, noElement, Option.none_or]
  cases found : place.children.find? fun child =>
      child.node.isText && child.node.range.touches offset with
  | none =>
    have missed := List.find?_eq_none.mp found child isChild
    simp [text, touches] at missed
  | some first =>
    obtain ⟨fulfilled, before, after, split, earlier⟩ := List.find?_eq_some_iff_append.mp found
    simp only [Bool.and_eq_true] at fulfilled
    refine ⟨first, List.mem_of_find?_eq_some found, rfl, fulfilled.1, fulfilled.2, ?_⟩
    -- The text touches the offset too, so it is not among the children passed over.
    have apart := Place.apart_of_fits fits
    rw [split] at isChild apart
    rcases List.mem_append.mp isChild with passed | inRest
    · simpa [text, touches] using earlier child passed
    · rcases List.mem_cons.mp inRest with same | behind
      · exact .inl same.symm
      · exact .inr ((List.pairwise_cons.mp (List.pairwise_append.mp apart).2.1).1 child behind)

/-! ### The whole descent -/

/-- A place is an answer to an offset: it contains the offset, or is a text that ends there. -/
def Place.Answers (offset : Nat) (place : Place) : Prop :=
  place.node.range.contains offset ∨ place.node.isText ∧ place.node.range.touches offset

theorem Place.contains_of_answers {offset : Nat} {place : Place} (answers : place.Answers offset)
    (element : place.node.isText = false) : place.node.range.contains offset := by
  rcases answers with contains | ⟨text, -⟩
  · exact contains
  · cases element.symm.trans text

theorem Place.answers_of_childAt? {offset : Nat} {place child : Place}
    (found : place.childAt? offset = some child) : child.Answers offset := by
  rw [Place.childAt?_eq, Option.or_eq_some_iff] at found
  rcases found with inElement | ⟨-, inText⟩
  · have fulfilled := List.find?_some inElement
    simp only [Bool.and_eq_true] at fulfilled
    exact .inl fulfilled.2
  · have fulfilled := List.find?_some inText
    simp only [Bool.and_eq_true] at fulfilled
    exact .inr fulfilled

/-- All that a descent keeps: the place is one of the tree's, it is an answer, and the offset lies
in every element around it. -/
structure Tree.Reached (tree : Tree) (offset : Nat) (place : Place) : Prop where
  member : place ∈ tree.places
  answers : place.Answers offset
  around : ∀ above ∈ selfAndAround.outer place.around, above.node.range.contains offset

theorem Tree.Reached.child {tree : Tree} {offset : Nat} {place child : Place}
    (reached : tree.Reached offset place) (found : place.childAt? offset = some child) :
    tree.Reached offset child := by
  have isChild := Place.mem_of_childAt? found
  refine ⟨(Tree.children_sublist_places reached.member).mem isChild,
    Place.answers_of_childAt? found, ?_⟩
  rw [siblings_around isChild]
  refine List.forall_mem_cons.mpr ⟨?_, reached.around⟩
  exact Place.contains_of_answers reached.answers (Place.isText_of_mem_children isChild)

/-- The descent ends at a place from which no step leads on. -/
theorem Tree.Reached.descend {tree : Tree} {offset : Nat} {place : Place}
    (reached : tree.Reached offset place) :
    tree.Reached offset (place.descend offset) ∧
      (place.descend offset).childAt? offset = none := by
  induction place using Place.descend.induct offset with
  | case1 place none =>
    rw [Place.descend_of_none none]
    exact ⟨reached, none⟩
  | case2 place child found inductionHypothesis =>
    rw [Place.descend_of_some found]
    exact inductionHypothesis (reached.child found)

theorem Node.Fits.contains_of_inner {node inside : Node} (fits : node.Fits)
    (enclosed : node.inner.encloses inside.range) {offset : Nat}
    (contains : inside.range.contains offset) : node.range.contains offset := by
  have outer := fits.inner
  simp only [Span.encloses, Span.contains, Bool.and_eq_true, decide_eq_true_eq] at *
  omega

/-- The descent from the root passes through every element that contains the offset. -/
theorem Tree.descend_eq_of_contains {tree : Tree} (fits : ∀ place ∈ tree.places, place.node.Fits)
    {offset : Nat} (place : Place) (member : place ∈ tree.places) :
    place.node.isText = false → place.node.range.contains offset →
      Place.descend offset ⟨0, tree.root, []⟩ = place.descend offset := by
  refine Tree.placeInduction ?_ ?_ place member
  · exact fun _ _ => rfl
  intro above aboveIn place isChild inductionHypothesis element contains
  have fitsAbove := fits above aboveIn
  have around := fitsAbove.contains_of_inner (Place.encloses_of_fits fitsAbove isChild) contains
  rw [inductionHypothesis (Place.isText_of_mem_children isChild) around,
    Place.descend_of_some (Place.childAt?_element fitsAbove isChild element contains)]

/-- A text that contains the offset is reached, unless another text before it ends there. -/
theorem Tree.descend_of_text {tree : Tree} (fits : ∀ place ∈ tree.places, place.node.Fits)
    (rootElement : tree.root.isText = false) {offset : Nat} {place : Place}
    (member : place ∈ tree.places) (text : place.node.isText)
    (contains : place.node.range.contains offset) :
    Place.descend offset ⟨0, tree.root, []⟩ = place ∨
      (Place.descend offset ⟨0, tree.root, []⟩).parent? = place.parent? ∧
        (Place.descend offset ⟨0, tree.root, []⟩).node.range.stop = offset ∧
        place.node.range.start = offset := by
  rcases Tree.eq_root_or_mem_children member with rfl | ⟨above, aboveIn, isChild⟩
  · cases rootElement.symm.trans text
  have fitsAbove := fits above aboveIn
  have around := fitsAbove.contains_of_inner (Place.encloses_of_fits fitsAbove isChild) contains
  obtain ⟨first, isFirst, found, firstText, touches, order⟩ :=
    Place.childAt?_text fitsAbove isChild text contains
  -- A text has no children, so the descent ends there.
  have ends : first.childAt? offset = none := by
    have leaf : first.children = [] := by
      cases same : first.node with
      | text run => exact Place.children_eq_nil (by rw [same]; rfl)
      | element tag children => simp [same, Node.isText] at firstText
    rw [Place.childAt?_eq, leaf]
    rfl
  rw [Tree.descend_eq_of_contains fits above aboveIn (Place.isText_of_mem_children isChild) around,
    Place.descend_of_some found, Place.descend_of_none ends]
  refine order.imp_right fun before => ?_
  simp only [Span.contains, Span.touches, Bool.and_eq_true, decide_eq_true_eq] at contains touches
  refine ⟨?_, by omega, by omega⟩
  rw [Place.parent?_of_mem_children isFirst, Place.parent?_of_mem_children isChild]

/-! ### Blank texts -/

/-- A text node without text. -/
def Node.isBlankText (node : Node) : Bool :=
  node.isText && node.text?.isNone

/-- These are the data under a span: a run without markup, or the content of a literal section. -/
def HoldsData (text data : List Char) (span : Span) : Prop :=
  span.slice? text = some data ∧ '<' ∉ data ∨
    span.slice? text = some ("<![CDATA[".toList ++ data ++ "]]>".toList)

theorem isBlankText_ofSpan {source data : List Char} {offset : Nat}
    (stands : Text.StandsAt source offset data) (range : Span) :
    (Node.text (.ofSpan source range (.between offset (offset + Text.size data)))).isBlankText =
      Text.blank data := by
  have trimmed : (Text.trim data).isEmpty = Text.blank data := by
    rw [Bool.eq_iff_iff, List.isEmpty_iff, Text.trim_eq_nil_iff]
  have empty := (ofSpan_eq stands range).2
  rw [trimmed] at empty
  cases blank : Text.blank data <;>
    simp [Node.isBlankText, Node.isText, Node.text?, Node.firstRun?, Node.run?, empty, blank]

/-- A text node is made of the data that it was read from, which stand under its span. -/
theorem ReadFrom.exists_data {source : List Char} {tokens : List Token} {node : Node}
    (readFrom : ReadFrom source tokens node) (whole : writtenOf tokens = source)
    (legible : ∀ token ∈ tokens, token.Legible) (text : node.isText) :
    ∃ data range place, HoldsData source data node.range ∧ Text.StandsAt source place data ∧
      node = .text (.ofSpan source range (.between place (place + Text.size data))) := by
  cases readFrom with
  | @text before after data split =>
    have inPlace := standsAt_written split
    rw [whole] at inPlace
    have noMarkup : data ≠ [] ∧ '<' ∉ data := legible (.text data) (by rw [split]; simp)
    refine ⟨data, _, _, .inl ⟨?_, noMarkup.2⟩, inPlace, rfl⟩
    rw [range_runNode]
    exact inPlace.slice?
  | @literal before after content split =>
    have inPlace := standsAt_written split
    rw [whole] at inPlace
    obtain ⟨range, place, literal, stands⟩ := Piece.literalNode_eq inPlace
    refine ⟨content, range, place, .inr ?_, stands.left, literal⟩
    rw [range_literalNode]
    exact inPlace.slice?
  | single => cases text
  | pair => cases text

theorem ReadFrom.blank {source : List Char} {tokens : List Token} {node : Node}
    (readFrom : ReadFrom source tokens node) (whole : writtenOf tokens = source)
    (legible : ∀ token ∈ tokens, token.Legible) (text : node.isText) :
    ∃ data, HoldsData source data node.range ∧ node.isBlankText = Text.blank data := by
  obtain ⟨data, range, place, holds, stands, made⟩ := readFrom.exists_data whole legible text
  exact ⟨data, holds, by rw [made]; exact isBlankText_ofSpan stands range⟩

/-! ### What is found -/

/-- The node found at an offset: it contains the offset or is a text that ends there, it is no
blank text, and no element inside it contains the offset while all around it do. -/
structure Tree.Locates (tree : Tree) (offset : Nat) (place : Place) : Prop where
  member : place ∈ tree.places
  here : place.node.range.contains offset ∨ place.node.isText ∧ place.node.range.stop = offset
  visible : place.node.isBlankText = false
  innermost : ∀ child ∈ place.children, child.node.isText = false →
    child.node.range.contains offset = false
  around : ∀ above ∈ selfAndAround.outer place.around, above.node.range.contains offset

/-- Why nothing is found at an offset. -/
inductive Tree.Misses (tree : Tree) (offset : Nat) : Prop
  | outside (notInRoot : tree.root.range.contains offset = false)
  /-- A blank text contains the offset or ends there. A text that is not blank can contain it too,
  but only if it starts right where the blank one ends. -/
  | blank {place : Place} (member : place ∈ tree.places) (blank : place.node.isBlankText)
      (here : place.node.range.touches offset)
      (seam : ∀ other ∈ tree.places, other.node.isText → other.node.isBlankText = false →
        other.node.range.contains offset →
          place.parent? = other.parent? ∧ place.node.range.stop = offset ∧
            other.node.range.start = offset)

theorem Tree.root_isElement {text : String} {tree : Tree} (parsed : Tree.parse text = .ok tree) :
    tree.root.isText = false := by
  obtain ⟨_, _, _, _, _, _, derives⟩ := derived_of_parse parsed
  cases same : tree.root with
  | element tag children => rfl
  | text run =>
    rw [same] at derives
    cases derives

theorem Tree.reached_descend {tree : Tree} {offset : Nat}
    (inRoot : tree.root.range.contains offset) :
    tree.Reached offset (Place.descend offset ⟨0, tree.root, []⟩) ∧
      (Place.descend offset ⟨0, tree.root, []⟩).childAt? offset = none :=
  Tree.Reached.descend ⟨tree.root_mem_places, .inl inRoot, fun _ around => nomatch around⟩

theorem Place.no_element_of_childAt? {offset : Nat} {place : Place}
    (ends : place.childAt? offset = none) : ∀ child ∈ place.children,
      child.node.isText = false → child.node.range.contains offset = false := by
  intro child isChild element
  rw [Place.childAt?_eq, Option.or_eq_none_iff] at ends
  simpa [element] using List.find?_eq_none.mp ends.1 child isChild

theorem Tree.locate?_eq {tree : Tree} {offset : Nat} (inRoot : tree.root.range.contains offset) :
    tree.locate? offset =
      if (Place.descend offset ⟨0, tree.root, []⟩).node.isBlankText then none
      else some (Place.descend offset ⟨0, tree.root, []⟩) := by
  rw [Tree.locate?, if_pos inRoot]
  rfl

theorem Tree.locates_of_locate? {tree : Tree} {offset : Nat} {place : Place}
    (found : tree.locate? offset = some place) : tree.Locates offset place := by
  by_cases inRoot : tree.root.range.contains offset
  · obtain ⟨reached, ends⟩ := Tree.reached_descend inRoot
    rw [Tree.locate?_eq inRoot] at found
    split at found
    · cases found
    · next visible =>
      obtain rfl := Option.some.inj found
      refine ⟨reached.member, ?_, by simpa using visible, Place.no_element_of_childAt? ends,
        reached.around⟩
      rcases reached.answers with contains | ⟨text, touches⟩
      · exact .inl contains
      · simp only [Span.touches, Bool.and_eq_true, decide_eq_true_eq] at touches
        rcases Nat.lt_or_eq_of_le touches.2 with before | ends
        · exact .inl (by simp [Span.contains, touches.1, before])
        · exact .inr ⟨text, ends.symm⟩
  · rw [Tree.locate?, if_neg inRoot] at found
    cases found

theorem Tree.misses_of_locate? {tree : Tree} (fits : ∀ place ∈ tree.places, place.node.Fits)
    (rootElement : tree.root.isText = false) {offset : Nat}
    (notFound : tree.locate? offset = none) : tree.Misses offset := by
  by_cases inRoot : tree.root.range.contains offset
  · obtain ⟨reached, -⟩ := Tree.reached_descend inRoot
    rw [Tree.locate?_eq inRoot] at notFound
    split at notFound
    · next blank =>
      have text : (Place.descend offset ⟨0, tree.root, []⟩).node.isText := by
        simp only [Node.isBlankText, Bool.and_eq_true] at blank
        exact blank.1
      refine .blank reached.member blank ?_ fun other member otherText visible contains => ?_
      · rcases reached.answers with contains | ⟨-, touches⟩
        · simp only [Span.touches, Span.contains, Bool.and_eq_true, decide_eq_true_eq] at *
          omega
        · exact touches
      · rcases Tree.descend_of_text fits rootElement member otherText contains with same | seam
        · rw [same, visible] at blank
          cases blank
        · exact seam
    · cases notFound
  · exact .outside (by simpa using inRoot)

/-- What is found at an offset of a parsed text is the innermost node there. If nothing is found,
the offset lies outside the root or at a blank text. In a text without a byte order mark a text node
is blank exactly if its data are. -/
theorem Tree.locate?_verdict {text : String} {tree : Tree} (parsed : Tree.parse text = .ok tree)
    (offset : Nat) :
    (∀ place, tree.locate? offset = some place → tree.Locates offset place) ∧
      (tree.locate? offset = none → tree.Misses offset) ∧
      (withoutMark text.toList = text.toList → ∀ place ∈ tree.places, place.node.isText →
        ∃ data, HoldsData text.toList data place.node.range ∧
          place.node.isBlankText = Text.blank data) := by
  refine ⟨fun place => Tree.locates_of_locate?, Tree.misses_of_locate? (Tree.fits_of_parse parsed)
    (Tree.root_isElement parsed), fun unmarked place member isText => ?_⟩
  exact (Tree.readFrom_of_parse parsed place member).blank
    ((writtenOf_tokensOf parsed).trans unmarked) (scan_legible _).1 isText

/-- Between two elements nothing is found but a blank, and inside one the element. -/
theorem Tree.locate?_verdict_gap :
    ∃ tree, Tree.parse "<a><b/> <c/></a>" = .ok tree ∧
      (∃ place, tree.locate? 5 = some place ∧ tree.Locates 5 place) ∧
      (tree.locate? 7 = none ∧ tree.Misses 7) ∧
      ∀ place ∈ tree.places, place.node.isText →
        ∃ data, HoldsData "<a><b/> <c/></a>".toList data place.node.range ∧
          place.node.isBlankText = Text.blank data := by
  have answer : (Tree.parse "<a><b/> <c/></a>").map (fun tree =>
      ((tree.locate? 5).isSome, (tree.locate? 7).isNone)) = .ok (true, true) := by
    decide +kernel
  obtain ⟨tree, parsed, shown⟩ := Tree.exists_of_map_parse answer
  obtain ⟨found, notFound⟩ := Prod.mk.inj shown
  obtain ⟨place, located⟩ := Option.isSome_iff_exists.mp found
  have missed := Option.isNone_iff_eq_none.mp notFound
  obtain ⟨locates, -, -⟩ := Tree.locate?_verdict parsed 5
  obtain ⟨-, misses, blanks⟩ := Tree.locate?_verdict parsed 7
  exact ⟨tree, parsed, ⟨place, located, locates place located⟩, ⟨missed, misses missed⟩,
    blanks (by decide +kernel)⟩

/-- Nothing is found in a text that is not blank, where a blank one ends. -/
theorem Tree.locate?_none_in_text :
    ∃ tree, Tree.parse "<a> <![CDATA[x]]></a>" = .ok tree ∧ tree.locate? 4 = none ∧
      tree.root.range.contains 4 ∧
      ∃ place ∈ tree.places, place.node.isText ∧ place.node.isBlankText = false ∧
        place.node.range.contains 4 := by
  have answer : (Tree.parse "<a> <![CDATA[x]]></a>").map (fun tree =>
      ((tree.locate? 4).isNone, tree.root.range.contains 4, tree.places.any fun place =>
        place.node.isText && !place.node.isBlankText && place.node.range.contains 4)) =
        .ok (true, true, true) := by
    decide +kernel
  obtain ⟨tree, parsed, shown⟩ := Tree.exists_of_map_parse answer
  simp only [Prod.mk.injEq] at shown
  obtain ⟨notFound, inRoot, inText⟩ := shown
  obtain ⟨place, member, fulfilled⟩ := List.any_eq_true.mp inText
  simp only [Bool.and_eq_true, Bool.not_eq_true'] at fulfilled
  exact ⟨tree, parsed, Option.isNone_iff_eq_none.mp notFound, inRoot, place, member,
    fulfilled.1.1, fulfilled.1.2, fulfilled.2⟩

end PomLens.Markup
