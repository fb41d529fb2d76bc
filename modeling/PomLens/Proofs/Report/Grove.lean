/-
This file says which forest an ordered collection of trees is.

A grove is a collection of trees in its simplest form: the first tree, with its entry and all that
is below it, and the trees after it. Its forest lists the nodes in preorder and refers to them by
their places in that list (`Grove.forest`). Adding the nodes one by one, each below its parent,
comes to the same forest (`Grove.grow_empty`), although the children of a node are then not all
known when it is added.
-/

import PomLens.Proofs.Report.Accounts

namespace PomLens.Report

/-- Trees in their order. -/
inductive Grove
  | nil
  /-- A first tree, with its entry and the trees below it, and the trees after it. -/
  | cons (entry : Entry) (below rest : Grove)

namespace Grove

/-! ### Numbered nodes -/

/-- The number of nodes. -/
def size : Grove → Nat
  | nil => 0
  | cons _ below rest => below.size + rest.size + 1

/-- The entries in preorder. -/
def entries : Grove → List Entry
  | nil => []
  | cons entry below rest => entry :: (below.entries ++ rest.entries)

/-- The numbers of the topmost nodes, if the first of them has this number. -/
def tops (first : Nat) : Grove → List Nat
  | nil => []
  | cons _ below rest => first :: rest.tops (first + 1 + below.size)

/-- The nodes in preorder, if the first of them has the number `first` and stands on the line
`line`. The topmost ones are below `above`, which is given with its root. -/
def nodes (above : Option (Nat × Nat)) (depth line first : Nat) : Grove → List Node
  | nil => []
  | cons entry below rest =>
    let root := (above.map Prod.snd).getD first
    ⟨entry, above.map Prod.fst, root, depth, line, below.tops (first + 1)⟩ ::
      (below.nodes (some (first, root)) (depth + 1) (line + 1) (first + 1) ++
        rest.nodes above depth (line + 1 + below.size) (first + 1 + below.size))

/-- The forest of a grove whose first node stands on this line. -/
def forest (header : Option Header) (line : Nat) (grove : Grove) : Forest :=
  ⟨header, (grove.nodes none 0 line 0).toArray, grove.tops 0⟩

/-! ### Growth -/

/-- A forest to which the trees of a grove are added below a node, one node after the other. -/
def grow (forest : Forest) (parent : Option Nat) (depth line : Nat) : Grove → Forest
  | nil => forest
  | cons entry below rest =>
    let lower :=
      below.grow (forest.add parent line depth entry) (some forest.size) (depth + 1) (line + 1)
    rest.grow lower parent depth (line + 1 + below.size)

/-- Enters more children with a node. -/
def adopt (nodes : List Node) (parent : Option Nat) (children : List Nat) : List Node :=
  match parent with
  | none => nodes
  | some above => nodes.modify above fun node =>
      { node with children := node.children ++ children }

@[simp] theorem length_adopt (nodes : List Node) (parent : Option Nat) (children : List Nat) :
    (adopt nodes parent children).length = nodes.length := by
  cases parent with
  | none => rfl
  | some above => exact List.length_modify ..

theorem adopt_nil (nodes : List Node) (parent : Option Nat) : adopt nodes parent [] = nodes := by
  cases parent with
  | none => rfl
  | some above =>
    have unchanged : (fun node : Node => { node with children := node.children ++ [] }) = id := by
      funext node
      rw [List.append_nil]
      rfl
    rw [adopt, unchanged, List.modify_id]

theorem adopt_adopt (nodes : List Node) (parent : Option Nat) (first second : List Nat) :
    adopt (adopt nodes parent first) parent second = adopt nodes parent (first ++ second) := by
  cases parent with
  | none => rfl
  | some above =>
    rw [adopt, adopt, adopt, List.modify_modify_eq]
    congr 1
    funext node
    simp [List.append_assoc]

/-- Nodes behind a node do not matter to its children. -/
theorem adopt_append {nodes : List Node} {parent : Option Nat}
    (inside : ∀ above, parent = some above → above < nodes.length) (more : List Node)
    (children : List Nat) :
    adopt (nodes ++ more) parent children = adopt nodes parent children ++ more := by
  cases parent with
  | none => rfl
  | some above =>
    have isInside := inside above rfl
    rw [adopt, adopt]
    clear inside
    induction nodes generalizing above with
    | nil => exact absurd isInside (Nat.not_lt_zero _)
    | cons node rest inductionHypothesis =>
      cases above with
      | zero => rfl
      | succ above =>
        rw [List.cons_append, List.modify_succ_cons, List.modify_succ_cons, List.cons_append,
          inductionHypothesis above (Nat.lt_of_succ_lt_succ isInside)]

theorem adopt_last {nodes : List Node} {index : Nat} (isLast : nodes.length = index) (last : Node)
    (children : List Nat) : adopt (nodes ++ [last]) (some index) children =
      nodes ++ [{ last with children := last.children ++ children }] := by
  subst isLast
  rw [adopt]
  induction nodes with
  | nil => rfl
  | cons node rest inductionHypothesis =>
    rw [List.cons_append, List.length_cons, List.modify_succ_cons, inductionHypothesis]
    rfl

theorem root_adopt (nodes : List Node) (parent : Option Nat) (children : List Nat) (index : Nat) :
    (adopt nodes parent children)[index]?.map Node.root = nodes[index]?.map Node.root := by
  cases parent with
  | none => rfl
  | some above =>
    rw [adopt, List.getElem?_modify]
    cases nodes[index]? with
    | none => rfl
    | some node =>
      simp only [Option.map_eq_map, Option.map_some]
      split <;> rfl

/-! ### The forest of a grove -/

@[simp] theorem size_grow (forest : Forest) (parent : Option Nat) (depth line : Nat)
    (grove : Grove) : (grove.grow forest parent depth line).size = forest.size + grove.size := by
  induction grove generalizing forest parent depth line with
  | nil => rfl
  | cons entry below rest belowHypothesis restHypothesis =>
    rw [grow, restHypothesis, belowHypothesis, Forest.size_add, size]
    omega

theorem header_grow (forest : Forest) (parent : Option Nat) (depth line : Nat)
    (grove : Grove) : (grove.grow forest parent depth line).header = forest.header := by
  induction grove generalizing forest parent depth line with
  | nil => rfl
  | cons entry below rest belowHypothesis restHypothesis =>
    rw [grow, restHypothesis, belowHypothesis]
    cases parent <;> rfl

theorem roots_grow (forest : Forest) (parent : Option Nat) (depth line : Nat) (grove : Grove) :
    (grove.grow forest parent depth line).roots =
      if parent = none then forest.roots ++ grove.tops forest.size else forest.roots := by
  induction grove generalizing forest parent depth line with
  | nil => simp [grow, tops]
  | cons entry below rest belowHypothesis restHypothesis =>
    rw [grow, restHypothesis, belowHypothesis, Forest.roots_add, size_grow, Forest.size_add, tops]
    split <;> simp

section

variable {forest : Forest} {parent : Option Nat} {root : Nat}
  (isRoot : ∀ above, parent = some above → forest.nodes[above]?.map Node.root = some root)

include isRoot

theorem lt_size_of_root (above : Nat) (isParent : parent = some above) : above < forest.size := by
  obtain ⟨node, found, -⟩ := Option.map_eq_some_iff.mp (isRoot above isParent)
  exact Forest.lt_of_getElem? found

theorem toList_add (line depth : Nat) (entry : Entry) :
    (forest.add parent line depth entry).nodes.toList =
      adopt forest.nodes.toList parent [forest.size] ++
        [⟨entry, parent, (parent.map fun _ => root).getD forest.size, depth, line, []⟩] := by
  cases parent with
  | none => exact Array.toList_push
  | some above =>
    have isInside (other : Nat) (same : some above = some other) :
        other < forest.nodes.toList.length := by
      rw [Array.length_toList]
      exact lt_size_of_root isRoot other same
    have nodes : (forest.add (some above) line depth entry).nodes =
        (forest.nodes.push (forest.newNode (some above) line depth entry)).modify above
          fun node => node.withChild forest.size := rfl
    have sameNode : forest.newNode (some above) line depth entry =
        ⟨entry, some above, root, depth, line, []⟩ := by
      simp [Forest.newNode, isRoot above rfl]
    rw [nodes, Array.toList_modify, Array.toList_push, sameNode]
    exact adopt_append isInside _ [forest.size]

/-- Growth appends the nodes of the grove, and enters the topmost ones with their parent. -/
theorem toList_grow (depth line : Nat) (grove : Grove) :
    (grove.grow forest parent depth line).nodes.toList =
      adopt forest.nodes.toList parent (grove.tops forest.size) ++
        grove.nodes (parent.map fun above => (above, root)) depth line forest.size := by
  induction grove generalizing forest parent root depth line with
  | nil => rw [grow, tops, nodes, adopt_nil, List.append_nil]
  | cons entry below rest belowHypothesis restHypothesis =>
    let top := (parent.map fun _ => root).getD forest.size
    let upper := adopt forest.nodes.toList parent [forest.size]
    let grown := forest.add parent line depth entry
    let lower := below.grow grown (some forest.size) (depth + 1) (line + 1)
    have inside := lt_size_of_root isRoot
    have lengthUpper : upper.length = forest.size := by
      rw [length_adopt, Array.length_toList, Forest.size]
    have added : grown.nodes.toList = upper ++ [⟨entry, parent, top, depth, line, []⟩] :=
      toList_add isRoot line depth entry
    have sizeGrown : grown.size = forest.size + 1 := Forest.size_add
    have isTop (above : Nat) (same : some forest.size = some above) :
        grown.nodes[above]?.map Node.root = some top := by
      obtain rfl := Option.some.inj same
      rw [← Array.getElem?_toList, added, List.getElem?_append_right (Nat.le_of_eq lengthUpper),
        lengthUpper, Nat.sub_self]
      rfl
    -- The children of the new node are all there once the trees below it have been added.
    have lowered : lower.nodes.toList =
        upper ++ ⟨entry, parent, top, depth, line, below.tops (forest.size + 1)⟩ ::
          below.nodes (some (forest.size, top)) (depth + 1) (line + 1) (forest.size + 1) := by
      have grownBelow := belowHypothesis isTop (depth + 1) (line + 1)
      rw [sizeGrown, added, adopt_last lengthUpper] at grownBelow
      rw [grownBelow, List.append_assoc]
      rfl
    have sizeLower : lower.size = forest.size + 1 + below.size := by
      rw [size_grow, sizeGrown]
    have isRootLower (above : Nat) (isParent : parent = some above) :
        lower.nodes[above]?.map Node.root = some root := by
      rw [← Array.getElem?_toList, lowered,
        List.getElem?_append_left (lengthUpper ▸ inside above isParent), root_adopt,
        Array.getElem?_toList]
      exact isRoot above isParent
    have insideUpper (above : Nat) (isParent : parent = some above) : above < upper.length :=
      lengthUpper ▸ inside above isParent
    have whole : (rest.grow lower parent depth (line + 1 + below.size)).nodes.toList = _ :=
      restHypothesis isRootLower depth (line + 1 + below.size)
    rw [grow, whole, sizeLower, lowered, adopt_append insideUpper, adopt_adopt]
    have parents : (parent.map fun above => (above, root)).map Prod.fst = parent := by
      simp [Function.comp_def]
    have roots : (parent.map fun above => (above, root)).map Prod.snd =
        parent.map fun _ => root := by
      simp [Function.comp_def]
    simp only [tops, nodes, parents, roots, List.append_assoc, List.cons_append, List.nil_append]
    rfl

end

/-- The forest of a grove is what grows out of nothing. -/
theorem grow_empty (header : Option Header) (line : Nat) (grove : Grove) :
    grove.grow ⟨header, #[], []⟩ none 0 line = grove.forest header line := by
  let bare : Forest := ⟨header, #[], []⟩
  have isRoot (above : Nat) (isParent : none = some above) :
      bare.nodes[above]?.map Node.root = some 0 := by cases isParent
  have sameNodes : (grove.grow ⟨header, #[], []⟩ none 0 line).nodes.toList =
      grove.nodes none 0 line 0 :=
    toList_grow isRoot 0 line grove
  have sameRoots : (grove.grow ⟨header, #[], []⟩ none 0 line).roots = grove.tops 0 :=
    roots_grow ⟨header, #[], []⟩ none 0 line grove
  have sameHeader : (grove.grow ⟨header, #[], []⟩ none 0 line).header = header :=
    header_grow ⟨header, #[], []⟩ none 0 line grove
  rw [forest, ← sameNodes, ← sameRoots]
  generalize grove.grow ⟨header, #[], []⟩ none 0 line = grown at sameHeader ⊢
  subst sameHeader
  rfl

end Grove

end PomLens.Report
