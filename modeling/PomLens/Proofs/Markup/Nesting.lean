/-
This file proves that the spans of a parsed tree agree with the nesting of its nodes.

The spans are right by the derivation of the tree from its tokens. Tokens stand one behind the
other, so the nodes read from them do as well, and the nodes inside an element are read from the
tokens between its two tags.
-/

import PomLens.Proofs.Markup.Numbering
import PomLens.Proofs.Markup.Verdict

namespace PomLens.Markup

open Piece (innerStart singleTag literalNode)

/-! ### Spans of siblings -/

/-- Siblings stand one behind the other between two offsets. -/
def InOrder (low high : Nat) : List Node → Prop
  | [] => low ≤ high
  | node :: rest => low ≤ node.range.start ∧ InOrder node.range.stop high rest

theorem InOrder.weaken {low later high : Nat} (before : low ≤ later) {nodes : List Node}
    (inOrder : InOrder later high nodes) : InOrder low high nodes := by
  cases nodes with
  | nil => exact before.trans inOrder
  | cons node rest => exact ⟨before.trans inOrder.1, inOrder.2⟩

theorem InOrder.le {low high : Nat} {nodes : List Node} (inOrder : InOrder low high nodes) :
    low ≤ high := by
  induction nodes generalizing low with
  | nil => exact inOrder
  | cons node rest inductionHypothesis =>
    exact inOrder.1.trans (node.range.ordered.trans (inductionHypothesis inOrder.2))

/-- Siblings in order stand between the offsets. -/
theorem InOrder.bounds {low high : Nat} {nodes : List Node} (inOrder : InOrder low high nodes) :
    ∀ node ∈ nodes, low ≤ node.range.start ∧ node.range.stop ≤ high := by
  induction nodes generalizing low with
  | nil => simp
  | cons node rest inductionHypothesis =>
    refine List.forall_mem_cons.mpr ⟨⟨inOrder.1, inOrder.2.le⟩, fun other member => ?_⟩
    obtain ⟨starts, ends⟩ := inductionHypothesis inOrder.2 other member
    exact ⟨inOrder.1.trans (node.range.ordered.trans starts), ends⟩

/-- Siblings in order do not overlap. -/
theorem InOrder.pairwise {low high : Nat} {nodes : List Node} (inOrder : InOrder low high nodes) :
    nodes.Pairwise fun earlier later => earlier.range.stop ≤ later.range.start := by
  induction nodes generalizing low with
  | nil => exact .nil
  | cons node rest inductionHypothesis =>
    exact .cons (fun other member => (inOrder.2.bounds other member).1)
      (inductionHypothesis inOrder.2)

/-- The spans of a node agree with each other and with those of its children. -/
structure Node.Fits (node : Node) : Prop where
  inner : node.range.encloses node.inner
  children : InOrder node.inner.start node.inner.stop node.children
  alone : node.isSelfClosing → node.children = []

theorem fits_text (run : TextRun) : (Node.text run).Fits where
  inner := by simp [Node.range, Node.inner, Span.encloses]
  children := run.range.ordered
  alone := fun _ => rfl

theorem fits_single (offset : Nat) (body : List Char) :
    (Node.element (singleTag offset body) []).Fits where
  inner := by
    -- The tag takes its three angle and slash characters at least.
    have size : 2 ≤ Text.size (Token.selfClosing body).written := by
      simp [Token.written, Char.utf8Size]
      omega
    simp [Node.range, Node.inner, singleTag, Span.encloses, Span.between, Span.point]
    omega
  children := Nat.le_refl _
  alone := fun _ => rfl

theorem fits_pair {offset : Nat} {opening closing : List Char} {inside : List Token}
    {children : List Node}
    (inOrder : InOrder (innerStart offset opening) (closeStart offset opening inside) children) :
    (Node.element (elementTag offset opening inside closing) children).Fits where
  inner := by
    simp [Node.range, Node.inner, elementTag, closeStop, closeStart, innerStart, Span.encloses,
      Span.between]
  children := by
    simpa [Node.inner, Node.children, elementTag, Span.between, inOrder.le] using inOrder
  alone := fun closed => nomatch closed

/-! ### Spans of derived nodes -/

/-- The nodes of a derivation stand in order where its tokens do, and so do all nodes inside
them. -/
theorem Derives.fits {source : List Char} {offset : Nat} {tokens : List Token}
    {nodes : List Node} (derives : Derives source offset tokens nodes) :
    InOrder offset (offset + Text.size (writtenOf tokens)) nodes ∧ EachNode Node.Fits nodes := by
  induction derives with
  | nil offset => exact ⟨Nat.le_add_right _ _, eachNode_nil _⟩
  | text _ inductionHypothesis =>
    obtain ⟨inOrder, fits⟩ := inductionHypothesis
    refine ⟨⟨by simp, ?_⟩, .cons (fits_text _) (eachNode_nil _) fits⟩
    simpa [Token.written, Nat.add_assoc] using inOrder
  | literal _ inductionHypothesis =>
    obtain ⟨inOrder, fits⟩ := inductionHypothesis
    refine ⟨⟨by simp, ?_⟩, .cons (fits_text _) (eachNode_nil _) fits⟩
    simpa [Nat.add_assoc] using inOrder
  | aside _ inductionHypothesis =>
    obtain ⟨inOrder, fits⟩ := inductionHypothesis
    have weaker := inOrder.weaken (Nat.le_add_right _ _)
    exact ⟨by simpa [Token.written, Nat.add_assoc] using weaker, fits⟩
  | single _ inductionHypothesis =>
    obtain ⟨inOrder, fits⟩ := inductionHypothesis
    refine ⟨⟨Nat.le_refl _, ?_⟩, .cons (fits_single _ _) (eachNode_nil _) fits⟩
    simpa [singleTag, Node.range, Nat.add_assoc] using inOrder
  | pair _ _ _ withinHypothesis inductionHypothesis =>
    obtain ⟨inOrder, fits⟩ := inductionHypothesis
    obtain ⟨within, fitsWithin⟩ := withinHypothesis
    refine ⟨⟨Nat.le_refl _, ?_⟩, .cons (fits_pair within) fitsWithin fits⟩
    simpa [elementTag, Node.range, closeStop, closeStart, innerStart, Nat.add_assoc] using inOrder

theorem DerivesElement.fits {source : List Char} {offset : Nat} {tokens : List Token}
    {node : Node} (derives : DerivesElement source offset tokens node) :
    EachNode Node.Fits [node] := by
  cases derives with
  | single body => exact .cons (fits_single _ _) (eachNode_nil _) (eachNode_nil _)
  | pair _ within => exact .cons (fits_pair within.fits.1) within.fits.2 (eachNode_nil _)

theorem Tree.fits_of_parse {text : String} {tree : Tree} (parsed : Tree.parse text = .ok tree) :
    ∀ place ∈ tree.places, place.node.Fits := by
  obtain ⟨_, _, _, _, _, _, derives⟩ := derived_of_parse parsed
  rw [tree.places_eq]
  exact derives.fits [] 0

/-! ### Spans of places -/

/-- Of two places in document order, the earlier is around the later or ends before it. -/
theorem placesOf_inOrder {around : List (Nat × Node)} {index low high : Nat} {nodes : List Node}
    (inOrder : InOrder low high nodes)
    (fits : ∀ place ∈ placesOf around index nodes, place.node.Fits) :
    (∀ place ∈ placesOf around index nodes,
      low ≤ place.node.range.start ∧ place.node.range.stop ≤ high) ∧
    (placesOf around index nodes).Pairwise fun earlier later =>
      earlier ∈ later.selfAndAround ∨ earlier.node.range.stop ≤ later.node.range.start := by
  induction nodes using Node.forestInduction generalizing around index low high with
  | nil => simp
  | cons node rest insideHypothesis restHypothesis =>
    simp only [placesOf_cons, List.forall_mem_cons, List.forall_mem_append] at fits
    obtain ⟨fitsNode, fitsInside, fitsRest⟩ := fits
    obtain ⟨within, insideApart⟩ := insideHypothesis fitsNode.children fitsInside
    obtain ⟨behind, restApart⟩ := restHypothesis inOrder.2 fitsRest
    have enclosed : node.range.start ≤ node.inner.start ∧ node.inner.stop ≤ node.range.stop := by
      simpa [Span.encloses] using fitsNode.inner
    have starts : low ≤ node.range.start := inOrder.1
    have ordered := node.range.ordered
    have stops : node.range.stop ≤ high := inOrder.2.le
    rw [placesOf_cons]
    refine ⟨List.forall_mem_cons.mpr ⟨⟨starts, stops⟩, List.forall_mem_append.mpr
      ⟨fun place member => ?_, fun place member => ?_⟩⟩, .cons (fun later member => ?_)
      (List.pairwise_append.mpr ⟨insideApart, restApart, fun earlier inside later further => ?_⟩)⟩
    · have := within place member
      omega
    · have := behind place member
      omega
    · rcases List.mem_append.mp member with inside | further
      · exact Or.inl (outer_subset_selfAndAround inside List.mem_cons_self)
      · exact Or.inr (behind later further).1
    · have := within earlier inside
      have := behind later further
      exact Or.inr (by omega)

/-- Of two places of a parsed tree, the earlier is around the later or ends before it. -/
theorem Tree.places_inOrder {text : String} {tree : Tree} (parsed : Tree.parse text = .ok tree) :
    tree.places.Pairwise fun earlier later =>
      earlier ∈ later.selfAndAround ∨ earlier.node.range.stop ≤ later.node.range.start := by
  have fits := Tree.fits_of_parse parsed
  rw [tree.places_eq] at fits ⊢
  have inOrder : InOrder tree.root.range.start tree.root.range.stop [tree.root] :=
    ⟨Nat.le_refl _, Nat.le_refl _⟩
  exact (placesOf_inOrder inOrder fits).2

/-- The first of the places that are looked for stands before every other one. -/
theorem Tree.eq_or_before_of_find? {text : String} {tree : Tree}
    (parsed : Tree.parse text = .ok tree) {test : Place → Bool} {first place : Place}
    (found : tree.places.find? test = some first) (member : place ∈ tree.places)
    (passes : test place) :
    first = place ∨ first ∈ place.selfAndAround ∨
      first.node.range.stop ≤ place.node.range.start := by
  obtain ⟨-, before, after, whole, fails⟩ := List.find?_eq_some_iff_append.mp found
  have apart := Tree.places_inOrder parsed
  rw [whole] at apart member
  rcases List.mem_append.mp member with inFront | further
  · exact absurd passes (by simpa using fails place inFront)
  · rcases List.mem_cons.mp further with same | behind
    · exact Or.inl same.symm
    · exact Or.inr ((List.pairwise_cons.mp (List.pairwise_append.mp apart).2.1).1 place behind)

/-! ### Spans of children -/

/-- The children of a place stand inside it. -/
theorem Place.encloses_of_fits {place child : Place} (fits : place.node.Fits)
    (member : child ∈ place.children) : place.node.inner.encloses child.node.range := by
  obtain ⟨starts, ends⟩ := fits.children.bounds child.node (Place.mem_children member)
  simp [Span.encloses, starts, ends]

theorem Place.apart_of_fits {place : Place} (fits : place.node.Fits) :
    place.children.Pairwise fun earlier later =>
      earlier.node.range.stop ≤ later.node.range.start := by
  have apart := fits.children.pairwise
  rwa [← map_node_siblings ((place.index, place.node) :: place.around) (place.index + 1)
    place.node.children, List.pairwise_map] at apart

theorem Place.children_eq_nil {place : Place} (none : place.node.children = []) :
    place.children = [] := by
  rw [Place.children, none, Place.siblings]

end PomLens.Markup
