/-
This file says where the nodes of a tree stand: their numbers, the elements around them, and
which of them lies at a byte offset.

A place is a node together with what surrounds it. The places of a tree are its nodes in
document order, and a place's number counts the places before it, so the number of a child
is found without walking the whole tree (`Place.children`).
-/

import PomLens.Markup.Tree

namespace PomLens.Markup

/-! ### Counting nodes -/

mutual

/-- The number of nodes of a subtree. -/
def Node.count : Node → Nat
  | .text _ => 1
  | .element _ children => 1 + countAll children

/-- The number of nodes of some subtrees. -/
def countAll : List Node → Nat
  | [] => 0
  | node :: rest => node.count + countAll rest

end

theorem Node.count_le_countAll {node : Node} {nodes : List Node} (member : node ∈ nodes) :
    node.count ≤ countAll nodes := by
  induction nodes with
  | nil => simp at member
  | cons head rest ih =>
    rw [countAll]
    rcases List.mem_cons.mp member with rfl | inRest
    · omega
    · have := ih inRest
      omega

/-- A child is smaller than its parent. -/
theorem Node.count_lt_of_mem_children {node child : Node} (member : child ∈ node.children) :
    child.count < node.count := by
  cases node with
  | text run => simp [Node.children] at member
  | element tag children =>
    have := Node.count_le_countAll member
    simp only [Node.count, Node.children] at this ⊢
    omega

/-! ### Places -/

/-- A node where it stands. -/
structure Place where
  /-- The number of nodes before it in document order. -/
  index : Nat
  node : Node
  /-- The elements around it with their numbers, the innermost first. -/
  around : List (Nat × Node)

namespace Place

/-- The places of sibling nodes, the first of which has the number `index`. -/
def siblings (around : List (Nat × Node)) (index : Nat) : List Node → List Place
  | [] => []
  | node :: rest => ⟨index, node, around⟩ :: siblings around (index + node.count) rest

/-- The element directly around a place. -/
def parent? (place : Place) : Option Place :=
  match place.around with
  | [] => none
  | (index, node) :: outer => some ⟨index, node, outer⟩

/-- The places of the children. -/
def children (place : Place) : List Place :=
  siblings ((place.index, place.node) :: place.around) (place.index + 1) place.node.children

theorem mem_siblings {around : List (Nat × Node)} {index : Nat} {nodes : List Node}
    {place : Place} (member : place ∈ siblings around index nodes) : place.node ∈ nodes := by
  induction nodes generalizing index with
  | nil => simp [siblings] at member
  | cons head rest ih =>
    rw [siblings] at member
    rcases List.mem_cons.mp member with rfl | inRest
    · exact List.mem_cons_self
    · exact List.mem_cons_of_mem _ (ih inRest)

theorem mem_children {place child : Place} (member : child ∈ place.children) :
    child.node ∈ place.node.children :=
  mem_siblings member

/-- The place itself and all places around it, from the inside. -/
def selfAndAround (place : Place) : List Place :=
  place :: outer place.around
where
  outer : List (Nat × Node) → List Place
    | [] => []
    | (index, node) :: rest => ⟨index, node, rest⟩ :: outer rest

/-- The names of the elements from the root down to a place. Text adds no name. -/
def tagPath (place : Place) : List String :=
  (place.selfAndAround.filterMap fun outer => outer.node.name?).reverse

end Place

mutual

/-- The places of a subtree in document order. -/
def Node.places (around : List (Nat × Node)) (index : Nat) : Node → List Place
  | .text run => [⟨index, .text run, around⟩]
  | .element tag children =>
    ⟨index, .element tag children, around⟩ ::
      placesOf ((index, .element tag children) :: around) (index + 1) children

/-- The places of sibling subtrees in document order. -/
def placesOf (around : List (Nat × Node)) (index : Nat) : List Node → List Place
  | [] => []
  | node :: rest => node.places around index ++ placesOf around (index + node.count) rest

end

/-- The places of a tree in document order, the root first. -/
def Tree.places (tree : Tree) : List Place :=
  tree.root.places [] 0

/-! ### Recognised names -/

/-- The names that carry meaning in a descriptor. -/
def recognizedTags : List String :=
  ["project", "parent", "modules", "module", "dependencyManagement", "dependencies",
    "dependency", "exclusions", "exclusion", "build", "plugins", "plugin", "groupId",
    "artifactId", "version", "scope", "type", "classifier", "relativePath", "properties",
    "packaging", "name"]

/-- The innermost element with a recognised name at or around a place. -/
def Place.enclosingTag? (place : Place) : Option Place :=
  place.selfAndAround.find? fun outer =>
    outer.node.name?.any fun name => recognizedTags.contains name

/-! ### The node at an offset -/

/-- The child to descend into for an offset. Elements that cover the offset come first, so
that a text ending where an element starts does not hide it; a text also answers for the
offset right behind it. -/
def Place.childAt? (offset : Nat) (place : Place) : Option Place :=
  let inElement (child : Place) : Bool :=
    !child.node.isText && child.node.range.contains offset
  let inText (child : Place) : Bool :=
    child.node.isText && child.node.range.touches offset
  place.children.find? inElement <|> place.children.find? inText

theorem Place.mem_of_childAt? {offset : Nat} {place child : Place}
    (found : place.childAt? offset = some child) : child ∈ place.children := by
  simp only [Place.childAt?, Option.orElse_eq_orElse, Option.orElse_eq_or] at found
  rcases Option.or_eq_some_iff.mp found with inElement | ⟨_, inText⟩
  · exact List.mem_of_find?_eq_some inElement
  · exact List.mem_of_find?_eq_some inText

/-- The innermost place reached by descending towards an offset. -/
def Place.descend (offset : Nat) (place : Place) : Place :=
  match _found : place.childAt? offset with
  | none => place
  | some child => child.descend offset
termination_by place.node.count
decreasing_by exact Node.count_lt_of_mem_children (Place.mem_children (Place.mem_of_childAt? _found))

/-- The innermost node at an offset. There is none outside the root element or in blank
text. -/
def Tree.locate? (tree : Tree) (offset : Nat) : Option Place :=
  if tree.root.range.contains offset then
    let place := Place.descend offset ⟨0, tree.root, []⟩
    if place.node.isText && place.node.text?.isNone then none else some place
  else none

/-- What there is to say about the node at an offset without its tree. -/
structure Location where
  range : Span
  isText : Bool
  /-- The names of the elements from the root down. -/
  tagPath : List String
  /-- The innermost recognised name. -/
  enclosingTag : Option String
  deriving DecidableEq, Repr

def Place.location (place : Place) : Location where
  range := place.node.range
  isText := place.node.isText
  tagPath := place.tagPath
  enclosingTag := place.enclosingTag? >>= fun tag => tag.node.name?

/-- The location at an offset of a text. Text that is not one element has none. -/
def locate? (text : String) (offset : Nat) : Option Location :=
  match Tree.parse text with
  | .error _ => none
  | .ok tree => (tree.locate? offset).map Place.location

end PomLens.Markup
