/-
This file proves that the accounts which a forest keeps of its tree agree.

A node names its parent, its root, its children and its depth, and the forest names its roots. A
reader enters each new node in all of these, knowing no more than the path that is still open. What
makes this work is that the nodes on the open path are each the parent of the next, and that
everything read since a node on the path lies deeper than it (`Reader.Upright`).
-/

import PomLens.Proofs.Text.Cutting
import PomLens.Report.Reader

namespace PomLens.Report

/-! ### Climbing -/

namespace Forest

/-- Parents have smaller numbers. -/
def Earlier (forest : Forest) : Prop :=
  ∀ index parent, forest.parent? index = some parent → parent < index

/-- A node and all above it, nearest first; nothing if there is no node. -/
def upFrom (forest : Forest) : Option Nat → List Nat
  | none => []
  | some index => index :: forest.ancestors index

/-- More steps than there are numbers below a node take the climb no further. -/
theorem climb_eq {forest : Forest} (earlier : forest.Earlier) {steps index : Nat}
    (enough : index < steps) : ancestors.climb forest steps index = forest.ancestors index := by
  rw [ancestors]
  induction index using Nat.strong_induction_on generalizing steps with
  | _ index inductionHypothesis =>
    obtain ⟨steps, rfl⟩ : ∃ fewer, steps = fewer + 1 := ⟨steps - 1, by omega⟩
    rw [ancestors.climb, ancestors.climb]
    cases isParent : forest.parent? index with
    | none => rfl
    | some parent =>
      have smaller := earlier index parent isParent
      simp only
      rw [inductionHypothesis parent smaller (by omega : parent < steps),
        inductionHypothesis parent smaller smaller]

/-- The nodes above a node are its parent and the nodes above that. -/
theorem ancestors_eq {forest : Forest} (earlier : forest.Earlier) (index : Nat) :
    forest.ancestors index = forest.upFrom (forest.parent? index) := by
  rw [ancestors, ancestors.climb]
  cases isParent : forest.parent? index with
  | none => rfl
  | some parent =>
    simp only [upFrom]
    rw [climb_eq earlier (earlier index parent isParent)]

theorem suffix_of_mem_upFrom {forest : Forest} (earlier : forest.Earlier) {from? : Option Nat}
    {index : Nat} (member : index ∈ forest.upFrom from?) :
    forest.upFrom (some index) <:+ forest.upFrom from? := by
  cases from? with
  | none => cases member
  | some start =>
    induction start using Nat.strong_induction_on with
    | _ start inductionHypothesis =>
      rw [upFrom, List.mem_cons] at member
      rcases member with rfl | further
      · exact List.suffix_refl _
      · rw [ancestors_eq earlier] at further
        cases isParent : forest.parent? start with
        | none => simp [isParent, upFrom] at further
        | some parent =>
          rw [isParent] at further
          have inner := inductionHypothesis parent (earlier start parent isParent) further
          refine inner.trans ?_
          rw [upFrom, upFrom, ancestors_eq earlier start, isParent]
          exact List.suffix_cons _ _

/-- The last part of a climb is a climb. -/
theorem drop_upFrom {forest : Forest} (earlier : forest.Earlier) (count : Nat)
    (from? : Option Nat) :
    (forest.upFrom from?).drop count =
      forest.upFrom ((forest.upFrom from?).drop count).head? := by
  induction count generalizing from? with
  | zero => cases from? <;> rfl
  | succ count inductionHypothesis =>
    cases from? with
    | none => rfl
    | some index =>
      rw [upFrom, List.drop_succ_cons, ancestors_eq earlier]
      exact inductionHypothesis _

/-! ### Consistent forests -/

/-- A node without a parent, which is its own root. -/
def IsRoot (forest : Forest) (index : Nat) : Prop :=
  ∃ node : Node, forest.nodes[index]? = some node ∧ node.parent = none ∧ node.root = index

/-- All accounts that a forest keeps of its tree agree. -/
structure Consistent (forest : Forest) : Prop where
  /-- Parents come first. -/
  earlier : forest.Earlier
  /-- The depth counts the nodes above. -/
  depth : ∀ (index : Nat) (node : Node), forest.nodes[index]? = some node →
    node.depth = (forest.ancestors index).length
  /-- The parent is the nearest earlier node of the depth before, and all nodes since are at least
  as deep as the node. -/
  nearest : ∀ (index : Nat) (node : Node) (parent : Nat), forest.nodes[index]? = some node →
    node.parent = some parent →
    ∃ above : Node, forest.nodes[parent]? = some above ∧ node.depth = above.depth + 1 ∧
      ∀ (since : Nat) (other : Node), parent < since → since < index →
        forest.nodes[since]? = some other → node.depth ≤ other.depth
  /-- The root is the last on the way up. -/
  root : ∀ (index : Nat) (node : Node), forest.nodes[index]? = some node →
    (forest.upFrom (some index)).getLast? = some node.root ∧ forest.IsRoot node.root
  /-- The children of a node are those that name it as their parent. -/
  children : ∀ index child, child ∈ forest.children index ↔ forest.parent? child = some index
  childrenOrder : ∀ index, (forest.children index).Pairwise (· < ·)
  /-- The roots are the nodes without a parent. -/
  roots : ∀ index, index ∈ forest.roots ↔ index < forest.size ∧ forest.parent? index = none
  rootsOrder : forest.roots.Pairwise (· < ·)
  /-- Later nodes stand on later lines. -/
  lines : ∀ (first second : Nat) (node other : Node), first < second →
    forest.nodes[first]? = some node → forest.nodes[second]? = some other → node.line < other.line
  /-- A node that lost to another version says to which. -/
  conflict : ∀ (index : Nat) (node : Node), forest.nodes[index]? = some node →
    node.entry.isConflict = true → node.entry.effectiveVersion ≠ ""

theorem consistent_empty : Consistent empty where
  earlier _ _ isParent := by simp [parent?, empty] at isParent
  depth _ _ found := by simp [empty] at found
  nearest _ _ _ found := by simp [empty] at found
  root _ _ found := by simp [empty] at found
  children _ _ := by simp [children, parent?, empty]
  childrenOrder _ := by simp [children, empty]
  roots _ := by simp [empty, size]
  rootsOrder := by simp [empty]
  lines _ _ _ _ _ found := by simp [empty] at found
  conflict _ _ found := by simp [empty] at found

/-- Just the nodes without a parent are their own roots. -/
theorem Consistent.root_eq_iff {forest : Forest} (consistent : forest.Consistent) {index : Nat}
    {node : Node} (isNode : forest.nodes[index]? = some node) :
    node.root = index ↔ node.parent = none := by
  obtain ⟨highest, root, isRoot, noParent, -⟩ := consistent.root index node isNode
  constructor
  · intro same
    rw [same, isNode] at isRoot
    rwa [Option.some.inj isRoot]
  · intro noParent
    have alone : forest.upFrom (some index) = [index] := by
      rw [upFrom, ancestors_eq consistent.earlier, parent?, isNode]
      show index :: forest.upFrom node.parent = _
      rw [noParent]
      rfl
    rw [alone] at highest
    exact (Option.some.inj highest).symm

/-- Nothing in the tree depends on the project. -/
theorem upFrom_withHeader (forest : Forest) (header : Option Header) :
    upFrom { forest with header } = forest.upFrom := by
  have climb (steps index : Nat) :
      ancestors.climb { forest with header } steps index =
        ancestors.climb forest steps index := by
    induction steps generalizing index with
    | zero => rfl
    | succ steps inductionHypothesis =>
      have sameParent : parent? { forest with header } index = forest.parent? index := rfl
      rw [ancestors.climb, ancestors.climb, sameParent]
      cases forest.parent? index with
      | none => rfl
      | some parent => exact congrArg (parent :: ·) (inductionHypothesis parent)
  funext from?
  cases from? with
  | none => rfl
  | some index => exact congrArg (index :: ·) (climb (index + 1) index)

theorem Consistent.withHeader {forest : Forest} (consistent : forest.Consistent)
    (header : Option Header) : Consistent { forest with header } where
  earlier := consistent.earlier
  depth index node found := by
    have sameClimb := congrFun (upFrom_withHeader forest header) (some index)
    rw [upFrom, upFrom, List.cons.injEq] at sameClimb
    rw [sameClimb.2]
    exact consistent.depth index node found
  nearest := consistent.nearest
  root index node found := by
    rw [upFrom_withHeader]
    exact consistent.root index node found
  children := consistent.children
  childrenOrder := consistent.childrenOrder
  roots := consistent.roots
  rootsOrder := consistent.rootsOrder
  lines := consistent.lines
  conflict := consistent.conflict

/-! ### One more node -/

section

variable {forest : Forest} {parent : Option Nat} {line depth : Nat} {entry : Entry}

/-- The node that is added. -/
def newNode (forest : Forest) (parent : Option Nat) (line depth : Nat) (entry : Entry) : Node :=
  ⟨entry, parent, (parent >>= fun above => forest.nodes[above]?.map Node.root).getD forest.size,
    depth, line, []⟩

theorem getElem?_eq_none_of_le {index : Nat} (behind : forest.size ≤ index) :
    forest.nodes[index]? = none :=
  Array.getElem?_eq_none behind

theorem lt_of_getElem? {index : Nat} {node : Node} (found : forest.nodes[index]? = some node) :
    index < forest.size := by
  by_contra behind
  rw [getElem?_eq_none_of_le (Nat.le_of_not_lt behind)] at found
  cases found

theorem exists_getElem? {index : Nat} (isInside : index < forest.size) :
    ∃ node, forest.nodes[index]? = some node :=
  ⟨_, Array.getElem?_eq_getElem isInside⟩

theorem lt_of_parent? {index above : Nat} (isParent : forest.parent? index = some above) :
    index < forest.size := by
  obtain ⟨node, found, -⟩ := Option.bind_eq_some_iff.mp isParent
  exact lt_of_getElem? found

/-- The new node stands at the end and is entered with its parent. -/
theorem getElem?_add (inside : ∀ above, parent = some above → above < forest.size) (index : Nat) :
    (forest.add parent line depth entry).nodes[index]? =
      if index = forest.size then some (forest.newNode parent line depth entry)
      else forest.nodes[index]?.map fun node =>
        if parent = some index then node.withChild forest.size else node := by
  have pushed : (forest.nodes.push (forest.newNode parent line depth entry))[index]? =
      if index = forest.size then some (forest.newNode parent line depth entry)
      else forest.nodes[index]? := Array.getElem?_push
  cases parent with
  | none =>
    have nodes : (forest.add none line depth entry).nodes =
        forest.nodes.push (forest.newNode none line depth entry) := rfl
    rw [nodes, pushed]
    simp only [reduceCtorEq, ↓reduceIte, Option.map_id']
  | some above =>
    have isInside := inside above rfl
    have nodes : (forest.add (some above) line depth entry).nodes =
        (forest.nodes.push (forest.newNode (some above) line depth entry)).modify above
          fun node => node.withChild forest.size := rfl
    rw [nodes, Array.getElem?_modify, pushed]
    simp only [Option.some.injEq]
    by_cases isNew : index = forest.size
    · have other : above ≠ index := by omega
      rw [if_neg other, if_pos isNew, if_pos isNew]
    · rw [if_neg isNew, if_neg isNew]
      by_cases own : above = index
      · simp only [own, ↓reduceIte]
      · simp only [own, ↓reduceIte, Option.map_id']

section

variable (inside : ∀ above, parent = some above → above < forest.size)

include inside

/-- What an old node says stays as it is, except for its children. -/
theorem getElem?_add_of_old {index : Nat} {node : Node}
    (found : forest.nodes[index]? = some node) : ∃ children,
    (forest.add parent line depth entry).nodes[index]? = some { node with children } := by
  rw [getElem?_add inside, if_neg (Nat.ne_of_lt (lt_of_getElem? found)), found]
  exact ⟨(if parent = some index then node.withChild forest.size else node).children,
    congrArg some (by split <;> rfl)⟩

/-- A node of the grown forest is the new one or an old one. -/
theorem getElem?_add_cases {index : Nat} {node : Node}
    (found : (forest.add parent line depth entry).nodes[index]? = some node) :
    (index = forest.size ∧ node = forest.newNode parent line depth entry) ∨
    ∃ old children, forest.nodes[index]? = some old ∧ node = { old with children } := by
  rw [getElem?_add inside] at found
  by_cases isNew : index = forest.size
  · rw [if_pos isNew, Option.some.injEq] at found
    exact Or.inl ⟨isNew, found.symm⟩
  · rw [if_neg isNew, Option.map_eq_some_iff] at found
    obtain ⟨old, isOld, rfl⟩ := found
    exact Or.inr ⟨old, (if parent = some index then old.withChild forest.size else old).children,
      isOld, by split <;> rfl⟩

theorem parent?_add (index : Nat) :
    (forest.add parent line depth entry).parent? index =
      if index = forest.size then parent else forest.parent? index := by
  rw [parent?, getElem?_add inside]
  by_cases isNew : index = forest.size
  · rw [if_pos isNew, if_pos isNew]
    rfl
  · rw [if_neg isNew, if_neg isNew, parent?]
    cases forest.nodes[index]? with
    | none => rfl
    | some node =>
      simp only [Option.map_some, Option.bind_eq_bind, Option.bind_some]
      split <;> rfl

theorem earlier_add (earlier : forest.Earlier) :
    (forest.add parent line depth entry).Earlier := by
  intro index above isParent
  rw [parent?_add inside] at isParent
  split at isParent
  · next isNew => exact isNew ▸ inside above isParent
  · exact earlier index above isParent

/-- Nothing changes above an old node. -/
theorem ancestors_add_of_lt (earlier : forest.Earlier) {index : Nat} (old : index < forest.size) :
    (forest.add parent line depth entry).ancestors index = forest.ancestors index := by
  induction index using Nat.strong_induction_on with
  | _ index inductionHypothesis =>
    rw [ancestors_eq (earlier_add inside earlier), ancestors_eq earlier, parent?_add inside,
      if_neg (Nat.ne_of_lt old)]
    cases isParent : forest.parent? index with
    | none => rfl
    | some above =>
      have smaller := earlier index above isParent
      rw [upFrom, upFrom, inductionHypothesis above smaller (Nat.lt_trans smaller old)]

theorem upFrom_add (earlier : forest.Earlier) :
    (forest.add parent line depth entry).upFrom parent = forest.upFrom parent := by
  cases parent with
  | none => rfl
  | some above => rw [upFrom, upFrom, ancestors_add_of_lt inside earlier (inside above rfl)]

/-- Above the new node are its parent and the nodes above that. -/
theorem ancestors_add_size (earlier : forest.Earlier) :
    (forest.add parent line depth entry).ancestors forest.size = forest.upFrom parent := by
  rw [ancestors_eq (earlier_add inside earlier), parent?_add inside, if_pos rfl,
    upFrom_add inside earlier]

theorem children_add (index : Nat) :
    (forest.add parent line depth entry).children index =
      if parent = some index then forest.children index ++ [forest.size]
      else forest.children index := by
  rw [children, getElem?_add inside, children]
  by_cases isNew : index = forest.size
  · have other : parent ≠ some index := fun own => Nat.lt_irrefl _ (isNew ▸ inside index own)
    rw [if_pos isNew, if_neg other, getElem?_eq_none_of_le (Nat.le_of_eq isNew.symm)]
    rfl
  · rw [if_neg isNew]
    by_cases own : parent = some index
    · obtain ⟨node, found⟩ := exists_getElem? (inside index own)
      simp [own, found, Node.withChild]
    · simp [own]

end

theorem size_add : (forest.add parent line depth entry).size = forest.size + 1 := by
  cases parent <;> simp [add, size]

theorem roots_add : (forest.add parent line depth entry).roots =
    if parent = none then forest.roots ++ [forest.size] else forest.roots := by
  cases parent <;> rfl

end

/-! ### The accounts of a forest with one more node -/

namespace Consistent

section

variable {forest : Forest} (consistent : forest.Consistent) {parent : Option Nat}
  (inside : ∀ above, parent = some above → above < forest.size) {line depth : Nat} {entry : Entry}

include consistent inside

theorem depth_add (isDepth : depth = (forest.upFrom parent).length) {index : Nat} {node : Node}
    (found : (forest.add parent line depth entry).nodes[index]? = some node) :
    node.depth = ((forest.add parent line depth entry).ancestors index).length := by
  rcases getElem?_add_cases inside found with ⟨rfl, rfl⟩ | ⟨old, children, isOld, rfl⟩
  · rw [ancestors_add_size inside consistent.earlier]
    exact isDepth
  · rw [ancestors_add_of_lt inside consistent.earlier (lt_of_getElem? isOld)]
    exact consistent.depth index old isOld

theorem nearest_add (isDepth : depth = (forest.upFrom parent).length)
    (deep : ∀ above, parent = some above → ∀ (since : Nat) (other : Node), above < since →
      forest.nodes[since]? = some other → depth ≤ other.depth)
    {index above : Nat} {node : Node}
    (found : (forest.add parent line depth entry).nodes[index]? = some node)
    (isParent : node.parent = some above) :
    ∃ upper : Node, (forest.add parent line depth entry).nodes[above]? = some upper ∧
      node.depth = upper.depth + 1 ∧ ∀ (since : Nat) (other : Node), above < since →
        since < index → (forest.add parent line depth entry).nodes[since]? = some other →
        node.depth ≤ other.depth := by
  -- The nodes between a parent and its child are old ones in either case.
  have between {bound least : Nat} (atMost : bound ≤ forest.size)
      (deepOld : ∀ (since : Nat) (other : Node), above < since → since < bound →
        forest.nodes[since]? = some other → least ≤ other.depth)
      (since : Nat) (other : Node) (after : above < since) (before : since < bound)
      (isOther : (forest.add parent line depth entry).nodes[since]? = some other) :
      least ≤ other.depth := by
    rcases getElem?_add_cases inside isOther with ⟨rfl, -⟩ | ⟨old, children, isOld, rfl⟩
    · omega
    · exact deepOld since old after before isOld
  rcases getElem?_add_cases inside found with ⟨rfl, rfl⟩ | ⟨old, children, isOld, rfl⟩
  · have own : parent = some above := isParent
    subst own
    obtain ⟨upper, isUpper⟩ := exists_getElem? (inside above rfl)
    obtain ⟨children, isAbove⟩ := getElem?_add_of_old inside isUpper
    have oneMore : depth = upper.depth + 1 :=
      isDepth.trans (congrArg (· + 1) (consistent.depth above upper isUpper).symm)
    exact ⟨_, isAbove, oneMore, between (Nat.le_refl _) fun since other after _ =>
      deep above rfl since other after⟩
  · obtain ⟨upper, isUpper, oneMore, deepOld⟩ :=
      consistent.nearest index old above isOld isParent
    obtain ⟨children, isAbove⟩ := getElem?_add_of_old inside isUpper
    exact ⟨_, isAbove, oneMore, between (Nat.le_of_lt (lt_of_getElem? isOld)) deepOld⟩

theorem root_add {index : Nat} {node : Node}
    (found : (forest.add parent line depth entry).nodes[index]? = some node) :
    ((forest.add parent line depth entry).upFrom (some index)).getLast? = some node.root ∧
      (forest.add parent line depth entry).IsRoot node.root := by
  have ofOld {top : Nat} (isTop : forest.IsRoot top) :
      (forest.add parent line depth entry).IsRoot top := by
    obtain ⟨node, isNode, noParent, isRoot⟩ := isTop
    obtain ⟨children, isNode⟩ := getElem?_add_of_old inside isNode
    exact ⟨_, isNode, noParent, isRoot⟩
  rcases getElem?_add_cases inside found with ⟨rfl, rfl⟩ | ⟨old, children, isOld, rfl⟩
  · rw [upFrom, ancestors_add_size inside consistent.earlier]
    cases parent with
    | none => exact ⟨rfl, _, found, rfl, rfl⟩
    | some above =>
      obtain ⟨upper, isUpper⟩ := exists_getElem? (inside above rfl)
      have sameRoot : (forest.newNode (some above) line depth entry).root = upper.root := by
        simp [newNode, isUpper]
      obtain ⟨isLast, isTop⟩ := consistent.root above upper isUpper
      rw [sameRoot]
      refine ⟨?_, ofOld isTop⟩
      rw [upFrom, List.getLast?_cons_cons]
      exact isLast
  · obtain ⟨isLast, isTop⟩ := consistent.root index old isOld
    refine ⟨?_, ofOld isTop⟩
    rw [upFrom, ancestors_add_of_lt inside consistent.earlier (lt_of_getElem? isOld)]
    exact isLast

theorem mem_children_add (index child : Nat) :
    child ∈ (forest.add parent line depth entry).children index ↔
      (forest.add parent line depth entry).parent? child = some index := by
  rw [children_add inside, parent?_add inside]
  by_cases isNew : child = forest.size
  · have noOld : forest.size ∉ forest.children index := fun member =>
      Nat.lt_irrefl _ (lt_of_parent? ((consistent.children index _).mp member))
    rw [if_pos isNew, isNew]
    split
    · next own => simp [own]
    · next other => simp [noOld, other]
  · rw [if_neg isNew, ← consistent.children index child]
    split
    · simp [isNew]
    · rfl

theorem pairwise_children_add (index : Nat) :
    ((forest.add parent line depth entry).children index).Pairwise (· < ·) := by
  rw [children_add inside]
  split
  · refine List.pairwise_append.mpr ⟨consistent.childrenOrder index,
      List.pairwise_singleton _ _, fun child member last isLast => ?_⟩
    rw [List.mem_singleton.mp isLast]
    exact lt_of_parent? ((consistent.children index child).mp member)
  · exact consistent.childrenOrder index

theorem mem_roots_add (index : Nat) : index ∈ (forest.add parent line depth entry).roots ↔
    index < (forest.add parent line depth entry).size ∧
      (forest.add parent line depth entry).parent? index = none := by
  rw [roots_add, size_add, parent?_add inside]
  have old := consistent.roots index
  by_cases isNew : index = forest.size
  · have noOld : index ∉ forest.roots := fun member => by have := (old.mp member).1; omega
    rw [if_pos isNew]
    split
    · next isRoot => simp [isNew, isRoot]
    · next below => simp [noOld, below]
  · have within : index < forest.size + 1 ↔ index < forest.size := by omega
    rw [if_neg isNew, within, ← old]
    split
    · simp [isNew]
    · rfl

omit inside in
theorem pairwise_roots_add : (forest.add parent line depth entry).roots.Pairwise (· < ·) := by
  rw [roots_add]
  split
  · refine List.pairwise_append.mpr ⟨consistent.rootsOrder, List.pairwise_singleton _ _,
      fun root member last isLast => ?_⟩
    rw [List.mem_singleton.mp isLast]
    exact ((consistent.roots root).mp member).1
  · exact consistent.rootsOrder

theorem lines_add (lineAfter : ∀ (index : Nat) (node : Node),
      forest.nodes[index]? = some node → node.line < line)
    {first second : Nat} {node other : Node} (inOrder : first < second)
    (isFirst : (forest.add parent line depth entry).nodes[first]? = some node)
    (isSecond : (forest.add parent line depth entry).nodes[second]? = some other) :
    node.line < other.line := by
  rcases getElem?_add_cases inside isFirst with ⟨rfl, rfl⟩ | ⟨old, children, isOld, rfl⟩
  · rcases getElem?_add_cases inside isSecond with ⟨rfl, rfl⟩ | ⟨later, children, isLater, rfl⟩
    · exact absurd inOrder (Nat.lt_irrefl _)
    · exact absurd (lt_of_getElem? isLater) (Nat.lt_asymm inOrder)
  · rcases getElem?_add_cases inside isSecond with ⟨rfl, rfl⟩ | ⟨later, children, isLater, rfl⟩
    · exact lineAfter first old isOld
    · exact consistent.lines first second old later inOrder isOld isLater

/-- A forest stays consistent when a node is added below the last node of the depth before. -/
theorem add (isDepth : depth = (forest.upFrom parent).length)
    (deep : ∀ above, parent = some above → ∀ (since : Nat) (other : Node), above < since →
      forest.nodes[since]? = some other → depth ≤ other.depth)
    (lineAfter : ∀ (index : Nat) (node : Node), forest.nodes[index]? = some node →
      node.line < line)
    (conflict : entry.isConflict = true → entry.effectiveVersion ≠ "") :
    (forest.add parent line depth entry).Consistent where
  earlier := earlier_add inside consistent.earlier
  depth _ _ found := consistent.depth_add inside isDepth found
  nearest _ _ _ found isParent := consistent.nearest_add inside isDepth deep found isParent
  root _ _ found := consistent.root_add inside found
  children := consistent.mem_children_add inside
  childrenOrder := consistent.pairwise_children_add inside
  roots := consistent.mem_roots_add inside
  rootsOrder := consistent.pairwise_roots_add
  lines _ _ _ _ inOrder isFirst isSecond :=
    consistent.lines_add inside lineAfter inOrder isFirst isSecond
  conflict index node found := by
    rcases getElem?_add_cases inside found with ⟨-, rfl⟩ | ⟨old, children, isOld, rfl⟩
    · exact conflict
    · exact consistent.conflict index old isOld

end

end Consistent

end Forest

end PomLens.Report
