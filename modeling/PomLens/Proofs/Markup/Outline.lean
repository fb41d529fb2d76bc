/-
This file says when two pieces of markup mean the same.

The outline of a node is what is left of it when places, asides, attributes and blanks are
forgotten: the names of the elements, how they are nested and ordered, and the characters of
their data. The outline of pieces is that of their nodes (`outlineOf_nodes`). Two stretches of
pieces are alike if they have the same outline and the same elements, piece for piece; they then
differ at most in what stands between the elements.
-/

import PomLens.Proofs.Markup.Standing

namespace PomLens.Markup

open Text (StandsAt letters)

/-! ### Outlines -/

inductive Outline
  | char (one : Char)
  | element (name : String) (content : List Outline)
  deriving Repr

/-- The outline of data. -/
@[irreducible] def Outline.ofData (chars : List Char) : List Outline :=
  (letters chars).map .char

@[simp] theorem Outline.ofData_nil : ofData [] = [] := by
  rw [ofData]
  rfl

@[simp] theorem Outline.ofData_append (first second : List Char) :
    ofData (first ++ second) = ofData first ++ ofData second := by
  simp [ofData]

mutual

/-- The outline of a node. -/
def Node.outline : Node → List Outline
  | .text run => Outline.ofData run.value.toList
  | .element tag children => [.element tag.name (outlineOf children)]

/-- The outline of some nodes. -/
def outlineOf : List Node → List Outline
  | [] => []
  | node :: rest => node.outline ++ outlineOf rest

end

@[simp] theorem outlineOf_nil : outlineOf [] = [] := by
  rw [outlineOf]

@[simp] theorem outlineOf_append (first second : List Node) :
    outlineOf (first ++ second) = outlineOf first ++ outlineOf second := by
  induction first with
  | nil => simp
  | cons node rest inductionHypothesis =>
    rw [List.cons_append, outlineOf, outlineOf, inductionHypothesis, List.append_assoc]

theorem outlineOf_cons (node : Node) (rest : List Node) :
    outlineOf (node :: rest) = outlineOf [node] ++ outlineOf rest :=
  outlineOf_append [node] rest

theorem outlineOf_element (tag : Tag) (children : List Node) :
    outlineOf [.element tag children] = [.element tag.name (outlineOf children)] := by
  rw [outlineOf, Node.outline, outlineOf_nil, List.append_nil]

namespace Piece

/-- The outline of pieces. -/
def outline : List Piece → List Outline
  | [] => []
  | .char one :: rest => Outline.ofData [one] ++ outline rest
  | .literal content :: rest => Outline.ofData content ++ outline rest
  | .aside _ :: rest => outline rest
  | .single body :: rest => .element (tagName body) [] :: outline rest
  | .pair opening inside _ :: rest => .element (tagName opening) (outline inside) :: outline rest

@[simp] theorem outline_nil : outline [] = [] := by
  rw [outline]

@[simp] theorem outline_append (first second : List Piece) :
    outline (first ++ second) = outline first ++ outline second := by
  induction first using stretchInduction <;> simp_all [outline]

theorem outline_cons (piece : Piece) (rest : List Piece) :
    outline (piece :: rest) = outline [piece] ++ outline rest :=
  outline_append [piece] rest

theorem outline_element {piece : Piece} (element : piece.isElement = true) {name : String}
    (named : piece.name? = some name) : outline [piece] = [.element name (outline piece.inside)] := by
  cases piece <;> simp_all [isElement, Piece.name?, inside, outline]

@[simp] theorem outline_data (chars : List Char) : outline (data chars) = Outline.ofData chars := by
  induction chars with
  | nil => simp
  | cons one rest inductionHypothesis =>
    rw [data, List.map_cons, outline, ← data, inductionHypothesis, ← Outline.ofData_append,
      List.singleton_append]

theorem outline_ofSpan {source run : List Char} {offset : Nat}
    (stands : StandsAt source offset run) (range : Span) :
    (Node.text (.ofSpan source range (.between offset (offset + Text.size run)))).outline =
      Outline.ofData run := by
  rw [Node.outline, (ofSpan_eq stands range).1, String.toList_ofList, Outline.ofData,
    Text.letters_trim, Outline.ofData]

theorem outlineOf_dataNodes {source run : List Char} {start : Nat}
    (stands : StandsAt source start run) :
    outlineOf (dataNodes source start (start + Text.size run)) = Outline.ofData run := by
  by_cases empty : run = []
  · subst empty
    simp
  · have longer : start ≠ start + Text.size run := by
      have := mt Text.size_eq_zero_iff.mp empty
      omega
    rw [dataNodes, if_neg longer, outlineOf, outline_ofSpan stands, outlineOf_nil,
      List.append_nil]

/-- The nodes of pieces have the outline of the pieces. -/
theorem outlineOf_nodes {source run : List Char} {start : Nat} {pieces : List Piece}
    (stands : StandsAt source start (run ++ written pieces)) :
    outlineOf (nodes source start (start + Text.size run) pieces) =
      Outline.ofData run ++ outline pieces := by
  induction pieces using stretchInduction generalizing start run with
  | nil => simpa [nodes] using outlineOf_dataNodes stands.left
  | char one rest inductionHypothesis =>
    have longer : StandsAt source start ((run ++ [one]) ++ written rest) := by
      simpa [written] using stands
    simpa [nodes, outline, Nat.add_assoc] using inductionHypothesis longer
  | literal content rest inductionHypothesis =>
    rw [written] at stands
    obtain ⟨range, place, node, inPlace⟩ := literalNode_eq stands.right.left
    have behind := @inductionHypothesis [] _ stands.right.right
    rw [Text.size_nil, Nat.add_zero] at behind
    rw [nodes, outlineOf_append, outlineOf_dataNodes stands.left, outlineOf, node,
      outline_ofSpan inPlace.left, behind, outline]
    simp
  | aside text rest inductionHypothesis =>
    rw [written] at stands
    have behind := @inductionHypothesis [] _ stands.right.right
    rw [Text.size_nil, Nat.add_zero] at behind
    rw [nodes, outlineOf_append, outlineOf_dataNodes stands.left, behind, outline]
    simp
  | single body rest inductionHypothesis =>
    rw [written] at stands
    have behind := @inductionHypothesis [] _ stands.right.right
    rw [Text.size_nil, Nat.add_zero] at behind
    rw [nodes, outlineOf_append, outlineOf_dataNodes stands.left, outlineOf_cons,
      outlineOf_element, behind, outline]
    simp [singleTag]
  | pair opening inside closing rest insideHypothesis inductionHypothesis =>
    rw [written, List.append_assoc, List.append_assoc] at stands
    have within := @insideHypothesis [] _ stands.right.right.left
    have behind := @inductionHypothesis [] _ stands.right.right.right.right
    rw [Text.size_nil, Nat.add_zero] at within behind
    rw [nodes, outlineOf_append, outlineOf_dataNodes stands.left, outlineOf_cons,
      outlineOf_element, outline]
    simp only [innerStart, within, behind]
    simp [pairTag]

theorem outlineOf_nodes_whole {source : List Char} {offset : Nat} {pieces : List Piece}
    (stands : StandsAt source offset (written pieces)) :
    outlineOf (nodes source offset offset pieces) = outline pieces := by
  have shown := @outlineOf_nodes source [] offset pieces stands
  rwa [Text.size_nil, Nat.add_zero, Outline.ofData_nil, List.nil_append] at shown

/-- The outline of an element is that of its node. -/
theorem IsNodeAt.outline {source : List Char} {offset : Nat} {piece : Piece} {node : Node}
    (isNode : IsNodeAt source offset piece node)
    (stands : StandsAt source offset (written [piece])) :
    outlineOf [node] = outline [piece] := by
  rw [← outlineOf_nodes_whole stands, isNode.2]

/-! ### Alike stretches -/

/-- The elements among pieces. -/
def elements (pieces : List Piece) : List Piece :=
  pieces.filter isElement

@[simp] theorem elements_append (first second : List Piece) :
    elements (first ++ second) = elements first ++ elements second :=
  List.filter_append ..

@[simp] theorem elements_data (chars : List Char) : elements (data chars) = [] := by
  simp [elements, data, isElement]

/-- The same outline and the same elements. -/
structure Alike (first second : List Piece) : Prop where
  outline : outline first = outline second
  elements : elements first = elements second

theorem Alike.refl (pieces : List Piece) : Alike pieces pieces := ⟨rfl, rfl⟩

theorem Alike.symm {first second : List Piece} (alike : Alike first second) :
    Alike second first :=
  ⟨alike.outline.symm, alike.elements.symm⟩

theorem Alike.append {first first' second second' : List Piece} (left : Alike first first')
    (right : Alike second second') : Alike (first ++ second) (first' ++ second') := by
  refine ⟨?_, ?_⟩
  · rw [outline_append, outline_append, left.outline, right.outline]
  · rw [elements_append, elements_append, left.elements, right.elements]

/-- Whatever elements are chosen, alike pieces have the same ones. -/
theorem Alike.filter {first second : List Piece} (alike : Alike first second)
    {pick : Piece → Bool} (noPiece : ∀ piece, piece.isElement = false → pick piece = false) :
    first.filter pick = second.filter pick := by
  have onElements (pieces : List Piece) : pieces.filter pick = (Piece.elements pieces).filter pick := by
    rw [Piece.elements, List.filter_filter]
    refine List.filter_congr fun piece _ => ?_
    cases element : piece.isElement with
    | false => simp [noPiece piece element]
    | true => simp
  rw [onElements, alike.elements, ← onElements]

/-- Alike pieces have the same first element, however it is chosen. -/
theorem Alike.find?_pick {first second : List Piece} (alike : Alike first second)
    {pick : Piece → Bool} (noPiece : ∀ piece, piece.isElement = false → pick piece = false) :
    first.find? pick = second.find? pick := by
  rw [← List.head?_filter, ← List.head?_filter, alike.filter noPiece]

theorem Alike.find? {first second : List Piece} (alike : Alike first second) (name : String) :
    first.find? (isNamed name) = second.find? (isNamed name) :=
  alike.find?_pick (Picks.named name).noPiece

/-- Blanks make no difference. -/
theorem Alike.of_blank {chars : List Char} (blank : Text.blank chars = true) :
    Alike (data chars) [] := by
  refine ⟨?_, elements_data chars⟩
  rw [outline_data, Outline.ofData, Text.letters_eq_nil_iff.mpr blank]
  simp

end Piece

/-! ### Changing the first of many -/

section

variable {α : Type}

/-- The list with the first element that is picked replaced. -/
def replaceFirst (pick : α → Bool) (change : α → List α) : List α → List α
  | [] => []
  | head :: rest => if pick head then change head ++ rest else head :: replaceFirst pick change rest

theorem replaceFirst_of_find? {pick : α → Bool} {first last : List α} {found : α}
    (noneBefore : ∀ other ∈ first, pick other = false) (picked : pick found = true)
    (change : α → List α) :
    replaceFirst pick change (first ++ found :: last) = first ++ change found ++ last := by
  induction first with
  | nil => simp [replaceFirst, picked]
  | cons head rest inductionHypothesis =>
    obtain ⟨notHead, notRest⟩ := List.forall_mem_cons.mp noneBefore
    simp [replaceFirst, notHead, inductionHypothesis notRest]

theorem replaceFirst_of_none {pick : α → Bool} {list : List α}
    (none : ∀ other ∈ list, pick other = false) (change : α → List α) :
    replaceFirst pick change list = list := by
  induction list with
  | nil => rfl
  | cons head rest inductionHypothesis =>
    obtain ⟨notHead, notRest⟩ := List.forall_mem_cons.mp none
    simp [replaceFirst, notHead, inductionHypothesis notRest]

theorem filter_replaceFirst (pick : α → Bool) (list : List α) :
    (replaceFirst pick (fun _ => []) list).filter pick = (list.filter pick).tail := by
  induction list with
  | nil => rfl
  | cons head rest inductionHypothesis =>
    by_cases picked : pick head = true
    · simp [replaceFirst, picked]
    · simp [replaceFirst, picked, inductionHypothesis]

/-- What another property chooses stays, if neither what is replaced nor what replaces it is
chosen. -/
theorem filter_replaceFirst_of_ne {pick other : α → Bool}
    (distinct : ∀ found, pick found = true → other found = false) {new : List α}
    (noneNew : new.filter other = []) (list : List α) :
    (replaceFirst pick (fun _ => new) list).filter other = list.filter other := by
  induction list with
  | nil => rfl
  | cons head rest inductionHypothesis =>
    by_cases picked : pick head = true
    · simp only [replaceFirst, picked, ↓reduceIte, List.filter_append, noneNew, List.nil_append,
        List.filter_cons, distinct head picked, Bool.false_eq_true]
    · simp [replaceFirst, picked, List.filter_cons, inductionHypothesis]

/-- What is put in the place of the first that is picked is the first, if it is picked too. -/
theorem find?_replaceFirst {pick : α → Bool} {list : List α} {old new : α}
    (found : list.find? pick = some old) (picked : pick new = true) :
    (replaceFirst pick (fun _ => [new]) list).find? pick = some new := by
  obtain ⟨isOld, first, rest, whole, before⟩ := List.find?_eq_some_iff_append.mp found
  have none : ∀ other ∈ first, pick other = false := by simpa using before
  rw [whole, replaceFirst_of_find? none isOld, List.append_assoc, List.singleton_append]
  exact List.find?_eq_some_iff_append.mpr ⟨picked, first, rest, rfl, before⟩

theorem replaceFirst_append_left {pick : α → Bool} {first : List α}
    (some : ∃ found ∈ first, pick found = true) (change : α → List α) (rest : List α) :
    replaceFirst pick change (first ++ rest) = replaceFirst pick change first ++ rest := by
  obtain ⟨found, member, picked⟩ := some
  induction first with
  | nil => simp at member
  | cons head more inductionHypothesis =>
    by_cases isHead : pick head = true
    · simp [replaceFirst, isHead]
    · rcases List.mem_cons.mp member with rfl | later
      · exact absurd picked isHead
      · simp [replaceFirst, isHead, inductionHypothesis later]

theorem replaceFirst_append_right {pick : α → Bool} {first : List α}
    (none : ∀ other ∈ first, pick other = false) (change : α → List α) (rest : List α) :
    replaceFirst pick change (first ++ rest) = first ++ replaceFirst pick change rest := by
  induction first with
  | nil => rfl
  | cons head more inductionHypothesis =>
    obtain ⟨notHead, notMore⟩ := List.forall_mem_cons.mp none
    simp [replaceFirst, notHead, inductionHypothesis notMore]

theorem replaceFirst_append_cons {pick : α → Bool} {first : List α} {passed : α}
    (none : ∀ other ∈ first, pick other = false) (notPassed : pick passed = false)
    (change : α → List α) (rest : List α) :
    replaceFirst pick change (first ++ passed :: rest) =
      first ++ passed :: replaceFirst pick change rest := by
  rw [replaceFirst_append_right none, replaceFirst, if_neg (by simp [notPassed])]

theorem mem_replaceFirst {pick : α → Bool} {change : α → List α} {list : List α} {other : α}
    (member : other ∈ replaceFirst pick change list) :
    other ∈ list ∨ ∃ found, pick found = true ∧ other ∈ change found := by
  induction list with
  | nil => simp [replaceFirst] at member
  | cons head rest inductionHypothesis =>
    rw [replaceFirst] at member
    split at member
    · next picked =>
      rcases List.mem_append.mp member with new | old
      · exact Or.inr ⟨head, picked, new⟩
      · exact Or.inl (List.mem_cons_of_mem _ old)
    · rcases List.mem_cons.mp member with rfl | later
      · exact Or.inl List.mem_cons_self
      · exact (inductionHypothesis later).imp (List.mem_cons_of_mem _) id

end

end PomLens.Markup
