/-
This file proves how the places of a tree are numbered.

The places of sibling subtrees, in document order, have consecutive numbers. Every place but the
first is a child of another, which stands before it, and the places of one subtree are a stretch of
all places. Everything here is about trees as such: where the tree was read from does not matter.
-/

import PomLens.Markup.Place
import Mathlib.Data.List.Sort

namespace PomLens.Markup

open Place (siblings)

/-! ### Sibling subtrees -/

/-- Facts about sibling subtrees are proved node after node, and among the children first. -/
@[elab_as_elim]
theorem Node.forestInduction {motive : List Node → Prop} (nil : motive [])
    (cons : ∀ node rest, motive node.children → motive rest → motive (node :: rest)) :
    ∀ nodes, motive nodes
  | [] => nil
  | .text run :: rest => cons (.text run) rest nil (forestInduction nil cons rest)
  | .element tag children :: rest =>
    cons (.element tag children) rest (forestInduction nil cons children)
      (forestInduction nil cons rest)

theorem Node.count_eq (node : Node) : node.count = 1 + countAll node.children := by
  cases node <;> simp [Node.count, Node.children, countAll]

/-- A node stands before the nodes inside it, and these before its later siblings. -/
theorem placesOf_cons (around : List (Nat × Node)) (index : Nat) (node : Node)
    (rest : List Node) :
    placesOf around index (node :: rest) =
      ⟨index, node, around⟩ ::
        (placesOf ((index, node) :: around) (index + 1) node.children ++
          placesOf around (index + node.count) rest) := by
  cases node <;> simp [placesOf, Node.places, Node.children]

@[simp] theorem placesOf_nil (around : List (Nat × Node)) (index : Nat) :
    placesOf around index [] = [] := by
  rw [placesOf]

/-- The places of a subtree, seen from its top. -/
def Place.subtree (place : Place) : List Place :=
  place.node.places place.around place.index

theorem Place.subtree_eq (place : Place) :
    place.subtree = placesOf place.around place.index [place.node] := by
  rw [placesOf, placesOf_nil, List.append_nil, Place.subtree]

theorem Tree.places_eq (tree : Tree) : tree.places = placesOf [] 0 [tree.root] :=
  Place.subtree_eq ⟨0, tree.root, []⟩

theorem Place.subtree_eq_cons (place : Place) :
    place.subtree = place ::
      placesOf ((place.index, place.node) :: place.around) (place.index + 1)
        place.node.children := by
  rw [place.subtree_eq, placesOf_cons, placesOf_nil, List.append_nil]

theorem Tree.getElem?_places_zero (tree : Tree) :
    tree.places[0]? = some ⟨0, tree.root, []⟩ := by
  rw [tree.places_eq, placesOf_cons]
  rfl

theorem Tree.root_mem_places (tree : Tree) : ⟨0, tree.root, []⟩ ∈ tree.places :=
  List.mem_of_getElem? tree.getElem?_places_zero

/-- Something holds of every node of sibling subtrees, wherever they stand. -/
def EachNode (holds : Node → Prop) (nodes : List Node) : Prop :=
  ∀ around index, ∀ place ∈ placesOf around index nodes, holds place.node

theorem eachNode_nil (holds : Node → Prop) : EachNode holds [] := by
  simp [EachNode]

theorem EachNode.cons {holds : Node → Prop} {node : Node} {rest : List Node} (top : holds node)
    (inside : EachNode holds node.children) (behind : EachNode holds rest) :
    EachNode holds (node :: rest) := by
  intro around index place member
  rw [placesOf_cons, List.mem_cons, List.mem_append] at member
  rcases member with rfl | below | further
  · exact top
  · exact inside _ _ place below
  · exact behind _ _ place further

/-! ### Numbers -/

/-- The places of sibling subtrees have consecutive numbers. -/
theorem map_index_placesOf (around : List (Nat × Node)) (index : Nat) (nodes : List Node) :
    (placesOf around index nodes).map Place.index = List.range' index (countAll nodes) := by
  induction nodes using Node.forestInduction generalizing around index with
  | nil => rw [placesOf_nil, countAll, List.range'_zero, List.map_nil]
  | cons node rest insideHypothesis restHypothesis =>
    rw [placesOf_cons, List.map_cons, List.map_append, insideHypothesis, restHypothesis, countAll,
      node.count_eq, ← Nat.add_assoc, List.range'_append_1, Nat.add_assoc, Nat.add_comm 1,
      List.range'_succ]

theorem Place.map_index_subtree (place : Place) :
    place.subtree.map Place.index = List.range' place.index place.node.count := by
  rw [place.subtree_eq, map_index_placesOf, countAll, countAll, Nat.add_zero]

theorem Tree.map_index_places (tree : Tree) :
    tree.places.map Place.index = List.range tree.root.count := by
  rw [List.range_eq_range']
  exact Place.map_index_subtree ⟨0, tree.root, []⟩

theorem Tree.places_pairwise (tree : Tree) :
    tree.places.Pairwise fun earlier later => earlier.index < later.index := by
  rw [← List.pairwise_map, tree.map_index_places]
  exact List.pairwise_lt_range

/-! ### Parents and children -/

theorem siblings_around {around : List (Nat × Node)} {index : Nat} {nodes : List Node}
    {place : Place} (member : place ∈ siblings around index nodes) : place.around = around := by
  induction nodes generalizing index with
  | nil => simp [siblings] at member
  | cons head rest inductionHypothesis =>
    rcases List.mem_cons.mp member with rfl | inRest
    · rfl
    · exact inductionHypothesis inRest

theorem map_node_siblings (around : List (Nat × Node)) (index : Nat) (nodes : List Node) :
    (Place.siblings around index nodes).map Place.node = nodes := by
  induction nodes generalizing index with
  | nil => rfl
  | cons node rest inductionHypothesis => rw [Place.siblings, List.map_cons, inductionHypothesis]

theorem Place.exists_mem_children {place : Place} {child : Node}
    (member : child ∈ place.node.children) : ∃ other ∈ place.children, other.node = child := by
  rw [← map_node_siblings ((place.index, place.node) :: place.around) (place.index + 1)
    place.node.children] at member
  exact List.mem_map.mp member

theorem Place.parent?_of_mem_children {above place : Place} (member : place ∈ above.children) :
    place.parent? = some above := by
  rw [Place.parent?, siblings_around member]

theorem siblings_sublist_placesOf (around : List (Nat × Node)) (index : Nat)
    (nodes : List Node) : (siblings around index nodes).Sublist (placesOf around index nodes) := by
  induction nodes generalizing index with
  | nil => rw [siblings, placesOf_nil]
  | cons node rest inductionHypothesis =>
    rw [siblings, placesOf_cons]
    exact .cons_cons _ ((inductionHypothesis _).trans (List.sublist_append_right _ _))

theorem Place.children_sublist_subtree (place : Place) : place.children.Sublist place.subtree := by
  rw [place.subtree_eq_cons]
  exact (siblings_sublist_placesOf _ _ _).cons _

/-- The subtree below a place among others is one stretch of them. -/
theorem exists_eq_append_subtree {around : List (Nat × Node)} {index : Nat} {nodes : List Node}
    {place : Place} (member : place ∈ placesOf around index nodes) :
    ∃ before after, placesOf around index nodes = before ++ place.subtree ++ after := by
  induction nodes using Node.forestInduction generalizing around index with
  | nil => simp at member
  | cons node rest insideHypothesis restHypothesis =>
    rw [placesOf_cons] at member ⊢
    rcases List.mem_cons.mp member with rfl | below
    · exact ⟨[], placesOf around (index + node.count) rest, by rw [Place.subtree_eq_cons]; rfl⟩
    rcases List.mem_append.mp below with inside | behind
    · obtain ⟨before, after, whole⟩ := insideHypothesis inside
      refine ⟨⟨index, node, around⟩ :: before,
        after ++ placesOf around (index + node.count) rest, ?_⟩
      simp only [whole, List.append_assoc, List.cons_append]
    · obtain ⟨before, after, whole⟩ := restHypothesis behind
      refine ⟨⟨index, node, around⟩ ::
        (placesOf ((index, node) :: around) (index + 1) node.children ++ before), after, ?_⟩
      simp only [whole, List.append_assoc, List.cons_append]

theorem Tree.exists_eq_append_subtree {tree : Tree} {place : Place}
    (member : place ∈ tree.places) :
    ∃ before after, tree.places = before ++ place.subtree ++ after := by
  rw [tree.places_eq] at member ⊢
  exact PomLens.Markup.exists_eq_append_subtree member

theorem Tree.children_sublist_places {tree : Tree} {place : Place}
    (member : place ∈ tree.places) : place.children.Sublist tree.places := by
  obtain ⟨before, after, whole⟩ := Tree.exists_eq_append_subtree member
  rw [whole, List.append_assoc]
  exact place.children_sublist_subtree.trans
    ((List.sublist_append_left _ _).trans (List.sublist_append_right _ _))

/-- Every place is at the top or a child. -/
theorem mem_siblings_or_mem_children {around : List (Nat × Node)} {index : Nat}
    {nodes : List Node} {place : Place} (member : place ∈ placesOf around index nodes) :
    place ∈ siblings around index nodes ∨
      ∃ above ∈ placesOf around index nodes, place ∈ above.children := by
  induction nodes using Node.forestInduction generalizing around index with
  | nil => simp at member
  | cons node rest insideHypothesis restHypothesis =>
    rw [placesOf_cons] at member ⊢
    rcases List.mem_cons.mp member with rfl | below
    · exact .inl List.mem_cons_self
    rcases List.mem_append.mp below with inside | behind
    · rcases insideHypothesis inside with child | ⟨above, aboveIn, child⟩
      · exact .inr ⟨_, List.mem_cons_self, child⟩
      · exact .inr ⟨above, List.mem_cons_of_mem _ (List.mem_append_left _ aboveIn), child⟩
    · rcases restHypothesis behind with top | ⟨above, aboveIn, child⟩
      · exact .inl (List.mem_cons_of_mem _ top)
      · exact .inr ⟨above, List.mem_cons_of_mem _ (List.mem_append_right _ aboveIn), child⟩

/-- The root is the first place, and every other place is a child of a place. -/
theorem Tree.eq_root_or_mem_children {tree : Tree} {place : Place} (member : place ∈ tree.places) :
    place = ⟨0, tree.root, []⟩ ∨ ∃ above ∈ tree.places, place ∈ above.children := by
  rw [tree.places_eq] at member ⊢
  exact (mem_siblings_or_mem_children member).imp_left List.mem_singleton.mp

theorem Place.index_lt_of_mem_children {above place : Place} (member : place ∈ above.children) :
    above.index < place.index := by
  have inSubtree := (siblings_sublist_placesOf _ _ _).mem member
  have numbered := List.mem_map_of_mem (f := Place.index) inSubtree
  rw [map_index_placesOf, List.mem_range'_1] at numbered
  omega

/-- Facts about the places of a tree are proved from the root down. -/
@[elab_as_elim]
theorem Tree.placeInduction {tree : Tree} {motive : Place → Prop}
    (root : motive ⟨0, tree.root, []⟩)
    (child : ∀ above ∈ tree.places, ∀ place ∈ above.children, motive above → motive place)
    (place : Place) (member : place ∈ tree.places) : motive place := by
  rcases Tree.eq_root_or_mem_children member with rfl | ⟨above, aboveIn, isChild⟩
  · exact root
  · exact child above aboveIn place isChild (Tree.placeInduction root child above aboveIn)
termination_by place.index
decreasing_by exact Place.index_lt_of_mem_children isChild

/-- Only elements have children. -/
theorem Place.isText_of_mem_children {above place : Place} (member : place ∈ above.children) :
    above.node.isText = false := by
  cases same : above.node with
  | text run => simp [Place.children, same, Node.children, siblings] at member
  | element tag children => rfl

/-! ### Subtrees -/

/-- The places around siblings are around everything in their subtrees. -/
theorem outer_subset_selfAndAround {around : List (Nat × Node)} {index : Nat}
    {nodes : List Node} {place : Place} (member : place ∈ placesOf around index nodes) :
    Place.selfAndAround.outer around ⊆ place.selfAndAround := by
  induction nodes using Node.forestInduction generalizing around index with
  | nil => simp at member
  | cons node rest insideHypothesis restHypothesis =>
    rw [placesOf_cons] at member
    rcases List.mem_cons.mp member with rfl | below
    · exact List.subset_cons_self _ _
    rcases List.mem_append.mp below with inside | behind
    · exact List.Subset.trans (List.subset_cons_self _ _) (insideHypothesis inside)
    · exact restHypothesis behind

end PomLens.Markup
