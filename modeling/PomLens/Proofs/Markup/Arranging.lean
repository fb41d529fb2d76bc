/-
This file proves that the cells of an arena are well arranged: the numbers that they store agree
with each other and with the spans.

A draft enters a new cell with its parent and no more, and an element that is open has only the
span of its opening tag. What makes the arena right at the end is known of a draft between two
tokens (`Draft.Arranged`): the open elements are each the parent of the next and the last child of
theirs, so that a walk through the cells comes to the innermost one with nothing else left to
visit, and everything read so far ends before the next token. Every token keeps that
(`Arranged.step`), whatever tokens there are.

Numbers are not bounded here; an arena has no more cells than its text has characters
(`Arena.size_le_of_parse`).
-/

import PomLens.Markup.Arena
import PomLens.Proofs.Outcome
import Mathlib.Data.List.Sort

namespace PomLens.Markup

/-! ### Walking through cells -/

/-- The parent that a cell names. -/
def parentIn (cells : Array Cell) (index : Nat) : Option Nat :=
  cells[index]? >>= Cell.parent

/-- The children that a cell names. -/
def childrenIn (cells : Array Cell) (index : Nat) : List Nat :=
  (cells[index]?.map Cell.children).getD []

/-- A walk that has some cells still to visit, in this order, visits cells and then has others
left. Behind every cell its children come next. -/
inductive Walk (cells : Array Cell) : List Nat → List Nat → List Nat → Prop
  | stay (left : List Nat) : Walk cells left [] left
  | visit {index : Nat} {cell : Cell} {rest visited left : List Nat}
      (found : cells[index]? = some cell) (onward : Walk cells (cell.children ++ rest) visited left) :
      Walk cells (index :: rest) (index :: visited) left

namespace Walk

variable {cells : Array Cell} {ahead visited between further left : List Nat}

theorem append (walk : Walk cells ahead visited between) (onward : Walk cells between further left) :
    Walk cells ahead (visited ++ further) left := by
  induction walk with
  | stay left => exact onward
  | visit found _ inductionHypothesis => exact .visit found (inductionHypothesis onward)

/-- There is only one way to walk. -/
theorem drop (walk : Walk cells ahead visited between)
    (longer : Walk cells ahead (visited ++ further) left) : Walk cells between further left := by
  induction walk with
  | stay between => exact longer
  | visit found _ inductionHypothesis =>
    cases longer with
    | visit again onward =>
      obtain rfl := Option.some.inj (found.symm.trans again)
      exact inductionHypothesis onward

/-- What is to be visited later does not change the walk before. -/
theorem withLater (walk : Walk cells ahead visited left) (later : List Nat) :
    Walk cells (ahead ++ later) visited (left ++ later) := by
  induction walk with
  | stay left => exact .stay _
  | visit found _ inductionHypothesis =>
    exact .visit found (by rwa [List.append_assoc] at inductionHypothesis)

/-- The walk is the same where the cells that it visits have the same children. -/
theorem congr {others : Array Cell} (walk : Walk cells ahead visited left)
    (same : ∀ index ∈ visited, ∀ cell : Cell, cells[index]? = some cell →
      ∃ other : Cell, others[index]? = some other ∧ other.children = cell.children) :
    Walk others ahead visited left := by
  induction walk with
  | stay left => exact .stay left
  | @visit index cell rest visited left found _ inductionHypothesis =>
    obtain ⟨other, isOther, children⟩ := same index List.mem_cons_self cell found
    exact .visit isOther (children ▸ inductionHypothesis fun number member =>
      same number (List.mem_cons_of_mem _ member))

end Walk

/-! ### Well arranged arenas -/

/-- The numbers that the cells of an arena store agree with each other and with the spans. -/
structure Arena.WellArranged (arena : Arena) : Prop where
  root : arena.root = 0
  /-- Only the root has no parent. -/
  orphan : ∀ (index : Nat) (cell : Cell), arena.cells[index]? = some cell →
    (cell.parent = none ↔ index = 0)
  /-- A parent is an element with a smaller number. -/
  parent : ∀ (index : Nat) (cell : Cell) (above : Nat), arena.cells[index]? = some cell →
    cell.parent = some above →
    above < index ∧ ∃ outer : Cell, arena.cells[above]? = some outer ∧ outer.isText = false
  /-- A walk from the root, on which every cell is followed by its children, visits the cells by
  their numbers. -/
  preorder : Walk arena.cells [arena.root] (List.range arena.cells.size) []
  /-- The children of a cell are those that name it as their parent, by their numbers. -/
  children : ∀ (index : Nat) (cell : Cell), arena.cells[index]? = some cell →
    cell.children =
      (List.range arena.cells.size).filter fun child => parentIn arena.cells child == some index
  inner : ∀ (index : Nat) (cell : Cell), arena.cells[index]? = some cell →
    cell.range.encloses cell.inner
  inside : ∀ (index : Nat) (cell : Cell), arena.cells[index]? = some cell →
    ∀ child ∈ cell.children, ∀ within : Cell, arena.cells[child]? = some within →
      cell.inner.encloses within.range
  /-- Siblings follow one another in the text without overlapping. -/
  apart : ∀ (index : Nat) (cell : Cell), arena.cells[index]? = some cell →
    cell.children.Pairwise fun earlier later => ∀ first second : Cell,
      arena.cells[earlier]? = some first → arena.cells[later]? = some second →
      first.range.stop ≤ second.range.start
  leaves : ∀ (index : Nat) (cell : Cell), arena.cells[index]? = some cell →
    (cell.isText ∨ cell.isSelfClosing) → cell.children = []

/-! ### Drafts -/

/-- A cell that may have others inside it. -/
def Cell.Opens (cell : Cell) : Prop :=
  cell.isText = false ∧ cell.isSelfClosing = false

theorem Cell.Opens.of_kind_eq {first second : Cell} (openable : first.Opens)
    (same : second.kind = first.kind) : second.Opens := by
  simpa [Cell.Opens, Cell.isText, Cell.name?, Cell.isSelfClosing, same] using openable

namespace Draft

/-- What is known of a draft between two tokens. -/
structure Arranged (draft : Draft) : Prop where
  rootless : draft.root = none → draft.cells.size = 0
  root : ∀ index, draft.root = some index → index = 0
  orphan : ∀ (index : Nat) (cell : Cell), draft.cells[index]? = some cell →
    (cell.parent = none ↔ index = 0)
  parent : ∀ (index : Nat) (cell : Cell) (above : Nat), draft.cells[index]? = some cell →
    cell.parent = some above →
    above < index ∧ ∃ outer : Cell, draft.cells[above]? = some outer ∧ outer.Opens
  children : ∀ index child, child ∈ childrenIn draft.cells index ↔
    parentIn draft.cells child = some index
  increasing : ∀ index, (childrenIn draft.cells index).Pairwise (· < ·)
  inner : ∀ (index : Nat) (cell : Cell), draft.cells[index]? = some cell →
    cell.range.encloses cell.inner
  /-- Everything ends before the next token. -/
  before : ∀ (index : Nat) (cell : Cell), draft.cells[index]? = some cell →
    cell.range.stop ≤ draft.position
  /-- What is inside an open element starts inside it. It ends there once the element is
  closed. -/
  inside : ∀ (child : Nat) (within : Cell) (index : Nat) (cell : Cell),
    draft.cells[child]? = some within → within.parent = some index →
    draft.cells[index]? = some cell →
    cell.inner.start ≤ within.range.start ∧
      (index ∉ draft.opened → within.range.stop ≤ cell.inner.stop)
  apart : ∀ (earlier later : Nat) (first second : Cell), earlier < later →
    draft.cells[earlier]? = some first → draft.cells[later]? = some second →
    first.parent = second.parent → first.range.stop ≤ second.range.start
  descending : draft.opened.Pairwise (· > ·)
  opens : ∀ index ∈ draft.opened, ∃ cell : Cell, draft.cells[index]? = some cell ∧ cell.Opens
  /-- What is around an open element is open. -/
  around : ∀ index ∈ draft.opened, ∀ above, parentIn draft.cells index = some above →
    above ∈ draft.opened
  /-- An open element is the last with its parent. -/
  latest : ∀ index ∈ draft.opened, ∀ later, index < later → later < draft.cells.size →
    parentIn draft.cells later ≠ parentIn draft.cells index
  /-- A walk comes to an open element with nothing else left. -/
  reaches : ∀ index ∈ draft.opened, Walk draft.cells [0] (List.range index) [index]
  walk : draft.cells.size ≠ 0 → Walk draft.cells [0] (List.range draft.cells.size) []

theorem arranged_start : Arranged start where
  rootless _ := rfl
  root _ found := nomatch found
  orphan _ _ found := by simp [start] at found
  parent _ _ _ found := by simp [start] at found
  children _ _ := by simp [childrenIn, parentIn, start]
  increasing _ := by simp [childrenIn, start]
  inner _ _ found := by simp [start] at found
  before _ _ found := by simp [start] at found
  inside _ _ _ _ found := by simp [start] at found
  apart _ _ _ _ _ found := by simp [start] at found
  descending := .nil
  opens _ member := nomatch member
  around _ member := nomatch member
  latest _ member := nomatch member
  reaches _ member := nomatch member
  walk nonempty := absurd rfl nonempty

/-! ### One more cell -/

section

variable {draft : Draft} {cell : Cell}
  (inside : ∀ above, cell.parent = some above → above < draft.cells.size)

include inside

/-- The new cell stands at the end and is entered with its parent. -/
theorem getElem?_add (index : Nat) :
    (draft.add cell).cells[index]? =
      if index = draft.cells.size then some cell
      else draft.cells[index]?.map fun old =>
        if cell.parent = some index then old.withChild draft.cells.size else old := by
  unfold add
  cases isParent : cell.parent with
  | none => simp [Array.getElem?_push]
  | some above =>
    have other : index = draft.cells.size → above ≠ index := fun isNew =>
      Nat.ne_of_lt (isNew ▸ inside above isParent)
    rw [Array.getElem?_modify, Array.getElem?_push]
    by_cases isNew : index = draft.cells.size
    · simp only [isNew, ↓reduceIte, isNew ▸ other isNew]
    · by_cases own : above = index <;> simp [isNew, own]

/-- A cell of the grown draft is the new one or an old one, with other children at most. -/
theorem getElem?_add_cases {index : Nat} {found : Cell}
    (isFound : (draft.add cell).cells[index]? = some found) :
    (index = draft.cells.size ∧ found = cell) ∨
      ∃ old children, draft.cells[index]? = some old ∧ found = { old with children } := by
  rw [getElem?_add inside] at isFound
  by_cases isNew : index = draft.cells.size
  · rw [if_pos isNew, Option.some.injEq] at isFound
    exact Or.inl ⟨isNew, isFound.symm⟩
  · rw [if_neg isNew, Option.map_eq_some_iff] at isFound
    obtain ⟨old, isOld, rfl⟩ := isFound
    exact Or.inr ⟨old, (if cell.parent = some index then
      old.withChild draft.cells.size else old).children, isOld, by split <;> rfl⟩

theorem getElem?_add_of_old {index : Nat} {old : Cell} (isOld : draft.cells[index]? = some old) :
    ∃ children, (draft.add cell).cells[index]? = some { old with children } := by
  have before : index ≠ draft.cells.size :=
    Nat.ne_of_lt (Array.getElem?_eq_some_iff.mp isOld).1
  rw [getElem?_add inside, if_neg before, isOld]
  exact ⟨(if cell.parent = some index then old.withChild draft.cells.size else old).children,
    congrArg some (by split <;> rfl)⟩

/-- Only the parent changes. -/
theorem getElem?_add_of_ne {index : Nat} {old : Cell} (isOld : draft.cells[index]? = some old)
    (other : cell.parent ≠ some index) : (draft.add cell).cells[index]? = some old := by
  have before : index ≠ draft.cells.size :=
    Nat.ne_of_lt (Array.getElem?_eq_some_iff.mp isOld).1
  rw [getElem?_add inside, if_neg before, isOld, Option.map_some, if_neg other]

theorem parentIn_add (index : Nat) : parentIn (draft.add cell).cells index =
    if index = draft.cells.size then cell.parent else parentIn draft.cells index := by
  rw [parentIn, getElem?_add inside, parentIn]
  by_cases isNew : index = draft.cells.size
  · rw [if_pos isNew, if_pos isNew]
    rfl
  · rw [if_neg isNew, if_neg isNew]
    cases draft.cells[index]? with
    | none => rfl
    | some old =>
      simp only [Option.map_some, Option.bind_eq_bind, Option.bind_some]
      split <;> rfl

theorem childrenIn_add (childless : cell.children = []) (index : Nat) :
    childrenIn (draft.add cell).cells index =
      if cell.parent = some index then childrenIn draft.cells index ++ [draft.cells.size]
      else childrenIn draft.cells index := by
  rw [childrenIn, getElem?_add inside, childrenIn]
  by_cases isNew : index = draft.cells.size
  · have other : cell.parent ≠ some index := fun own => Nat.lt_irrefl _ (isNew ▸ inside index own)
    rw [if_pos isNew, if_neg other, isNew, Array.getElem?_eq_none (Nat.le_refl _)]
    exact childless
  · rw [if_neg isNew]
    by_cases own : cell.parent = some index
    · simp [own, Array.getElem?_eq_getElem (inside index own), Cell.withChild]
    · simp [own]

end

theorem size_add (draft : Draft) (cell : Cell) :
    (draft.add cell).cells.size = draft.cells.size + 1 := by
  unfold add
  cases cell.parent <;> simp

theorem lt_size_of_parentIn {cells : Array Cell} {index above : Nat}
    (isParent : parentIn cells index = some above) : index < cells.size := by
  obtain ⟨cell, found, -⟩ := Option.bind_eq_some_iff.mp isParent
  exact (Array.getElem?_eq_some_iff.mp found).1

theorem parentIn_eq {cells : Array Cell} {index : Nat} {cell : Cell}
    (found : cells[index]? = some cell) : parentIn cells index = cell.parent := by
  rw [parentIn, found]
  rfl

theorem range_eq_append {index size : Nat} (before : index < size) :
    List.range size = List.range index ++ index :: List.range' (index + 1) (size - index - 1) := by
  have joined : List.range' 0 index ++ List.range' (0 + index) (size - index) =
      List.range' 0 (index + (size - index)) := List.range'_append_1
  rw [Nat.add_sub_cancel' (Nat.le_of_lt before), Nat.zero_add] at joined
  rw [← List.range'_succ, List.range_eq_range', List.range_eq_range', ← joined,
    Nat.sub_add_cancel (Nat.sub_pos_of_lt before)]

theorem root_add (draft : Draft) (cell : Cell) :
    (draft.add cell).root = if cell.parent = none then some draft.cells.size else draft.root := by
  unfold add
  cases cell.parent <;> rfl

/-- The innermost open element was added last. -/
theorem Arranged.le_innermost {draft : Draft} (arranged : draft.Arranged) {innermost index : Nat}
    (isInnermost : draft.opened.head? = some innermost) (isOpen : index ∈ draft.opened) :
    index ≤ innermost := by
  have descending := arranged.descending
  obtain ⟨others, isCons⟩ := List.head?_eq_some_iff.mp isInnermost
  rw [isCons] at descending isOpen
  rcases List.mem_cons.mp isOpen with rfl | further
  · exact Nat.le_refl _
  · exact Nat.le_of_lt ((List.pairwise_cons.mp descending).1 index further)

namespace Arranged

section

variable {draft : Draft} (arranged : draft.Arranged) {cell : Cell}
  (below : cell.parent = draft.opened.head?)

include arranged

theorem lt_size {index : Nat} (isOpen : index ∈ draft.opened) : index < draft.cells.size := by
  obtain ⟨cell, found, -⟩ := arranged.opens index isOpen
  exact (Array.getElem?_eq_some_iff.mp found).1

theorem lt_of_parentIn {index above : Nat} (isParent : parentIn draft.cells index = some above) :
    above < index := by
  obtain ⟨cell, found, names⟩ := Option.bind_eq_some_iff.mp isParent
  exact (arranged.parent index cell above found names).1

/-- The walk from an open element on visits everything behind it. -/
theorem walk_children {index : Nat} (isOpen : index ∈ draft.opened) :
    Walk draft.cells (childrenIn draft.cells index)
      (List.range' (index + 1) (draft.cells.size - index - 1)) [] := by
  have before := arranged.lt_size isOpen
  have whole := arranged.walk (Nat.ne_zero_of_lt before)
  rw [range_eq_append before] at whole
  cases (arranged.reaches index isOpen).drop whole with
  | visit found onward =>
    rw [childrenIn, found]
    rwa [List.append_nil] at onward

include below

theorem parent_lt (above : Nat) (isParent : cell.parent = some above) :
    above < draft.cells.size :=
  arranged.lt_size (List.mem_of_head? (below ▸ isParent))

/-- Before the parent of the new cell a walk goes as it did, and behind it as well. -/
theorem walk_add {ahead visited left : List Nat} (walk : Walk draft.cells ahead visited left)
    (others : ∀ index ∈ visited, cell.parent ≠ some index) :
    Walk (draft.add cell).cells ahead visited left :=
  walk.congr fun index member old isOld =>
    ⟨old, getElem?_add_of_ne (arranged.parent_lt below) isOld (others index member), rfl⟩

/-- A walk comes to the new cell last. -/
theorem reaches_add (fresh : draft.opened = [] → draft.root = none)
    (childless : cell.children = []) :
    Walk (draft.add cell).cells [0] (List.range draft.cells.size) [draft.cells.size] := by
  have inside := arranged.parent_lt below
  cases isParent : cell.parent with
  | none =>
    rw [arranged.rootless (fresh (List.head?_eq_none_iff.mp (below ▸ isParent)))]
    exact .stay [0]
  | some above =>
    have isOpen : above ∈ draft.opened := List.mem_of_head? (below ▸ isParent)
    have there := arranged.walk_add below (arranged.reaches above isOpen) fun index member => by
      have := List.mem_range.mp member
      simpa [isParent] using (by omega : above ≠ index)
    have onward := arranged.walk_add below (arranged.walk_children isOpen) fun index member => by
      have := (List.mem_range'_1.mp member).1
      simpa [isParent] using (by omega : above ≠ index)
    obtain ⟨outer, isOuter, -⟩ := arranged.opens above isOpen
    obtain ⟨others, isAbove⟩ := getElem?_add_of_old inside isOuter
    have children : others = childrenIn draft.cells above ++ [draft.cells.size] := by
      have entered := childrenIn_add inside childless above
      rw [if_pos isParent, childrenIn, isAbove] at entered
      exact entered
    rw [range_eq_append (inside above isParent)]
    refine there.append (.visit isAbove ?_)
    rw [List.append_nil, children]
    exact onward.withLater [draft.cells.size]

theorem mem_children_add (childless : cell.children = []) (index child : Nat) :
    child ∈ childrenIn (draft.add cell).cells index ↔
      parentIn (draft.add cell).cells child = some index := by
  have inside := arranged.parent_lt below
  rw [childrenIn_add inside childless, parentIn_add inside]
  by_cases isNew : child = draft.cells.size
  · have noOld : draft.cells.size ∉ childrenIn draft.cells index := fun member =>
      Nat.lt_irrefl _ (lt_size_of_parentIn ((arranged.children index _).mp member))
    rw [if_pos isNew, isNew]
    split
    · next own => simp [own]
    · next other => simp [noOld, other]
  · rw [if_neg isNew, ← arranged.children index child]
    split
    · simp [isNew]
    · rfl

theorem increasing_add (childless : cell.children = []) (index : Nat) :
    (childrenIn (draft.add cell).cells index).Pairwise (· < ·) := by
  rw [childrenIn_add (arranged.parent_lt below) childless]
  split
  · refine List.pairwise_append.mpr ⟨arranged.increasing index,
      List.pairwise_singleton _ _, fun child member last isLast => ?_⟩
    rw [List.mem_singleton.mp isLast]
    exact lt_size_of_parentIn ((arranged.children index child).mp member)
  · exact arranged.increasing index

/-- An open element stays the last with its parent: the new cell stands below the innermost one. -/
theorem latest_add {index later : Nat} (isOpen : index ∈ draft.opened) (behind : index < later)
    (stored : later < (draft.add cell).cells.size) :
    parentIn (draft.add cell).cells later ≠ parentIn (draft.add cell).cells index := by
  have inside := arranged.parent_lt below
  rw [parentIn_add inside, parentIn_add inside, if_neg (Nat.ne_of_lt (arranged.lt_size isOpen))]
  split
  · rw [below]
    intro same
    cases isInnermost : draft.opened.head? with
    | none =>
      rw [List.head?_eq_none_iff.mp isInnermost] at isOpen
      cases isOpen
    | some innermost =>
      have := arranged.le_innermost isInnermost isOpen
      have := arranged.lt_of_parentIn (same.symm.trans isInnermost)
      omega
  · next old =>
    rw [size_add] at stored
    exact arranged.latest index isOpen later behind (by omega)

/-- The new cell starts inside the one around it, which is open. -/
theorem inside_add (childless : cell.children = []) (starts : draft.position ≤ cell.range.start)
    {opened : List Nat} (kept : ∀ index ∈ draft.opened, index ∈ opened) {child index : Nat}
    {within found : Cell} (isWithin : (draft.add cell).cells[child]? = some within)
    (isParent : within.parent = some index)
    (isFound : (draft.add cell).cells[index]? = some found) :
    found.inner.start ≤ within.range.start ∧
      (index ∉ opened → within.range.stop ≤ found.inner.stop) := by
  have inside := arranged.parent_lt below
  rcases getElem?_add_cases inside isFound with ⟨rfl, rfl⟩ | ⟨old, children, isOld, rfl⟩
  · -- Nothing stands below the new cell.
    have names := (arranged.mem_children_add below childless _ child).mpr
      ((parentIn_eq isWithin).trans isParent)
    rw [childrenIn, isFound] at names
    simp [childless] at names
  rcases getElem?_add_cases inside isWithin with ⟨rfl, rfl⟩ | ⟨old', children', isOld', rfl⟩
  · have isOpen : index ∈ draft.opened := List.mem_of_head? (below ▸ isParent)
    refine ⟨?_, fun closed => absurd (kept index isOpen) closed⟩
    have := (Span.encloses_iff.mp (arranged.inner index old isOld)).2
    have := arranged.before index old isOld
    have := old.inner.ordered
    exact (by omega : old.inner.start ≤ draft.position).trans starts
  · obtain ⟨begins, ends⟩ := arranged.inside child old' index old isOld' isParent isOld
    exact ⟨begins, fun closed => ends fun isOpen => closed (kept index isOpen)⟩

theorem apart_add (starts : draft.position ≤ cell.range.start) {earlier later : Nat}
    {first second : Cell} (before : earlier < later)
    (isFirst : (draft.add cell).cells[earlier]? = some first)
    (isSecond : (draft.add cell).cells[later]? = some second)
    (sameParent : first.parent = second.parent) : first.range.stop ≤ second.range.start := by
  have inside := arranged.parent_lt below
  rcases getElem?_add_cases inside isFirst with ⟨rfl, rfl⟩ | ⟨old, children, isOld, rfl⟩
  · have := (Array.getElem?_eq_some_iff.mp isSecond).1
    rw [size_add] at this
    omega
  rcases getElem?_add_cases inside isSecond with ⟨rfl, rfl⟩ | ⟨old', children', isOld', rfl⟩
  · exact (arranged.before earlier old isOld).trans starts
  · exact arranged.apart earlier later old old' before isOld isOld' sameParent

/-- One more cell, which may be open. -/
theorem add (fresh : draft.opened = [] → draft.root = none) (childless : cell.children = [])
    {stop : Nat} (starts : draft.position ≤ cell.range.start) (stops : cell.range.stop ≤ stop)
    (encloses : cell.range.encloses cell.inner) {opened : List Nat}
    (kept : ∀ index ∈ draft.opened, index ∈ opened)
    (grown : ∀ index ∈ opened, index ∈ draft.opened ∨ index = draft.cells.size ∧ cell.Opens)
    (descending : opened.Pairwise (· > ·)) :
    Arranged { draft.add cell with position := stop, opened } := by
  have inside := arranged.parent_lt below
  have position : draft.position ≤ stop := starts.trans (cell.range.ordered.trans stops)
  have parentIsOpen (above : Nat) (isParent : cell.parent = some above) : above ∈ draft.opened :=
    List.mem_of_head? (below ▸ isParent)
  have isNew : (draft.add cell).cells[draft.cells.size]? = some cell := by
    rw [getElem?_add inside, if_pos rfl]
  have reaches := arranged.reaches_add below fresh childless
  refine ⟨?rootless, ?root, ?orphan, ?parent, arranged.mem_children_add below childless,
    arranged.increasing_add below childless, ?inner, ?before,
    fun _ _ _ _ => arranged.inside_add below childless starts kept,
    fun _ _ _ _ => arranged.apart_add below starts, descending, ?opens, ?around, ?latest, ?reaches,
    ?walk⟩
  case rootless =>
    intro noRoot
    rw [root_add] at noRoot
    split at noRoot
    · cases noRoot
    · next isBelow =>
      obtain ⟨above, isParent⟩ := Option.ne_none_iff_exists'.mp isBelow
      exact absurd (arranged.rootless noRoot) (Nat.ne_zero_of_lt (inside above isParent))
  case root =>
    intro index isRoot
    rw [root_add] at isRoot
    split at isRoot
    · next isTop =>
      rw [← Option.some.inj isRoot]
      exact arranged.rootless (fresh (List.head?_eq_none_iff.mp (below ▸ isTop)))
    · exact arranged.root index isRoot
  case orphan =>
    intro index found isFound
    rcases getElem?_add_cases inside isFound with ⟨rfl, rfl⟩ | ⟨old, children, isOld, rfl⟩
    · refine ⟨fun isTop => arranged.rootless (fresh (List.head?_eq_none_iff.mp (below ▸ isTop))),
        fun none => Option.eq_none_iff_forall_ne_some.mpr fun above isParent => ?_⟩
      exact absurd (inside above isParent) (by omega)
    · exact arranged.orphan index old isOld
  case parent =>
    intro index found above isFound isParent
    rcases getElem?_add_cases inside isFound with ⟨rfl, rfl⟩ | ⟨old, children, isOld, rfl⟩
    · obtain ⟨outer, isOuter, openable⟩ := arranged.opens above (parentIsOpen above isParent)
      obtain ⟨children, isAbove⟩ := getElem?_add_of_old inside isOuter
      exact ⟨inside above isParent, _, isAbove, openable⟩
    · obtain ⟨earlier, outer, isOuter, openable⟩ := arranged.parent index old above isOld isParent
      obtain ⟨children, isAbove⟩ := getElem?_add_of_old inside isOuter
      exact ⟨earlier, _, isAbove, openable⟩
  case inner =>
    intro index found isFound
    rcases getElem?_add_cases inside isFound with ⟨rfl, rfl⟩ | ⟨old, children, isOld, rfl⟩
    · exact encloses
    · exact arranged.inner index old isOld
  case before =>
    intro index found isFound
    rcases getElem?_add_cases inside isFound with ⟨rfl, rfl⟩ | ⟨old, children, isOld, rfl⟩
    · exact stops
    · exact (arranged.before index old isOld).trans position
  case opens =>
    intro index isOpen
    rcases grown index isOpen with before | ⟨rfl, openable⟩
    · obtain ⟨old, isOld, openable⟩ := arranged.opens index before
      obtain ⟨children, found⟩ := getElem?_add_of_old inside isOld
      exact ⟨_, found, openable⟩
    · exact ⟨cell, isNew, openable⟩
  case around =>
    intro index isOpen above isParent
    rw [parentIn_add inside] at isParent
    split at isParent
    · exact kept above (parentIsOpen above isParent)
    · next old =>
      have before := (grown index isOpen).resolve_right fun new => old new.1
      exact kept above (arranged.around index before above isParent)
  case latest =>
    intro index isOpen later behind stored
    rcases grown index isOpen with before | ⟨rfl, -⟩
    · exact arranged.latest_add below before behind stored
    · rw [size_add] at stored
      omega
  case reaches =>
    intro index isOpen
    rcases grown index isOpen with before | ⟨rfl, -⟩
    · refine arranged.walk_add below (arranged.reaches index before) fun number member own => ?_
      have := List.mem_range.mp member
      have := arranged.le_innermost (below ▸ own) before
      omega
    · exact reaches
  case walk =>
    intro _
    rw [size_add, List.range_succ]
    refine reaches.append (.visit isNew ?_)
    rw [childless]
    exact .stay []

end

end Arranged

/-! ### Closing an element -/

/-- The cells after the tag that closes an element has been read between two offsets. -/
def closedCells (cells : Array Cell) (number start stop : Nat) : Array Cell :=
  cells.modify number fun cell => cell.closedBetween start stop

section

variable (cells : Array Cell) (number start stop : Nat)

theorem getElem?_closedCells (index : Nat) :
    (closedCells cells number start stop)[index]? = cells[index]?.map fun cell =>
      if number = index then cell.closedBetween start stop else cell := by
  rw [closedCells, Array.getElem?_modify]
  by_cases same : number = index <;> simp [same]

theorem size_closedCells : (closedCells cells number start stop).size = cells.size :=
  Array.size_modify

@[simp] theorem parentIn_closedCells (index : Nat) :
    parentIn (closedCells cells number start stop) index = parentIn cells index := by
  rw [parentIn, getElem?_closedCells, parentIn]
  cases cells[index]? with
  | none => rfl
  | some cell =>
    simp only [Option.map_some, Option.bind_eq_bind, Option.bind_some]
    split <;> rfl

@[simp] theorem childrenIn_closedCells (index : Nat) :
    childrenIn (closedCells cells number start stop) index = childrenIn cells index := by
  rw [childrenIn, getElem?_closedCells, childrenIn]
  cases cells[index]? with
  | none => rfl
  | some cell =>
    simp only [Option.map_some]
    split <;> rfl

variable {cells number start stop}

/-- Only the ends of the closed element's spans change. -/
theorem getElem?_closedCells_cases {index : Nat} {found : Cell}
    (isFound : (closedCells cells number start stop)[index]? = some found) :
    ∃ old : Cell, cells[index]? = some old ∧ found.kind = old.kind ∧ found.parent = old.parent ∧
      found.children = old.children ∧ found.range.start = old.range.start ∧
      found.inner.start = old.inner.start ∧
      (number ≠ index ∧ found = old ∨ number = index ∧ found = old.closedBetween start stop) := by
  rw [getElem?_closedCells, Option.map_eq_some_iff] at isFound
  obtain ⟨old, isOld, rfl⟩ := isFound
  by_cases same : number = index
  · rw [if_pos same]
    exact ⟨old, isOld, rfl, rfl, rfl, rfl, rfl, Or.inr ⟨same, rfl⟩⟩
  · rw [if_neg same]
    exact ⟨old, isOld, rfl, rfl, rfl, rfl, rfl, Or.inl ⟨same, rfl⟩⟩

theorem getElem?_closedCells_of_old {index : Nat} {old : Cell} (isOld : cells[index]? = some old) :
    ∃ found : Cell, (closedCells cells number start stop)[index]? = some found ∧
      found.kind = old.kind ∧ found.children = old.children := by
  rw [getElem?_closedCells, isOld]
  exact ⟨_, rfl, by split <;> rfl, by split <;> rfl⟩

end

section

variable {draft : Draft} (arranged : draft.Arranged) {innermost : Nat} {outer : List Nat}
  (isOpen : draft.opened = innermost :: outer) {stop : Nat}

include arranged isOpen

/-- What is inside the closed element was read before its closing tag, and the closed element is
not inside one that was closed before. -/
theorem Arranged.inside_close {child index : Nat} {within found : Cell}
    (isWithin : (closedCells draft.cells innermost draft.position stop)[child]? = some within)
    (isParent : within.parent = some index)
    (isFound : (closedCells draft.cells innermost draft.position stop)[index]? = some found) :
    found.inner.start ≤ within.range.start ∧
      (index ∉ outer → within.range.stop ≤ found.inner.stop) := by
  obtain ⟨old, isOld, -, -, -, -, begins, change⟩ := getElem?_closedCells_cases isFound
  obtain ⟨old', isOld', -, parent, -, begins', -, change'⟩ :=
    getElem?_closedCells_cases isWithin
  have wasParent : old'.parent = some index := parent.symm.trans isParent
  obtain ⟨starts, stops⟩ := arranged.inside child old' index old isOld' wasParent isOld
  refine ⟨by rw [begins, begins']; exact starts, fun closed => ?_⟩
  have notInnermost : innermost ≠ child := by
    rintro rfl
    have isAround := arranged.around innermost (isOpen ▸ List.mem_cons_self) index
      ((parentIn_eq isOld').trans wasParent)
    rw [isOpen] at isAround
    rcases List.mem_cons.mp isAround with rfl | member
    · exact Nat.lt_irrefl _ (arranged.parent index old' index isOld' wasParent).1
    · exact closed member
  obtain ⟨-, rfl⟩ := change'.resolve_right fun same => notInnermost same.1
  rcases change with ⟨other, rfl⟩ | ⟨rfl, rfl⟩
  · refine stops fun member => ?_
    rw [isOpen] at member
    rcases List.mem_cons.mp member with rfl | member
    · exact other rfl
    · exact closed member
  · have := arranged.before child within isOld'
    simp only [Cell.closedBetween, Span.between]
    omega

/-- The closed element is the last with its parent, so its end is in front of no sibling. -/
theorem Arranged.apart_close {earlier later : Nat} {first second : Cell} (before : earlier < later)
    (isFirst : (closedCells draft.cells innermost draft.position stop)[earlier]? = some first)
    (isSecond : (closedCells draft.cells innermost draft.position stop)[later]? = some second)
    (sameParent : first.parent = second.parent) : first.range.stop ≤ second.range.start := by
  obtain ⟨old, isOld, -, parent, -, -, -, change⟩ := getElem?_closedCells_cases isFirst
  obtain ⟨old', isOld', -, parent', -, begins', -, -⟩ := getElem?_closedCells_cases isSecond
  have wasSame : old.parent = old'.parent := by rw [← parent, ← parent', sameParent]
  rw [begins']
  rcases change with ⟨-, rfl⟩ | ⟨rfl, -⟩
  · exact arranged.apart earlier later first old' before isOld isOld' wasSame
  · refine absurd ?_ (arranged.latest innermost (isOpen ▸ List.mem_cons_self) later before
      (Array.getElem?_eq_some_iff.mp isOld').1)
    rw [parentIn_eq isOld, parentIn_eq isOld', wasSame]

/-- The innermost element is closed by a tag that ends at an offset. -/
theorem Arranged.close (later : draft.position ≤ stop) :
    Arranged { draft with
      position := stop
      opened := outer
      cells := closedCells draft.cells innermost draft.position stop } := by
  have wasOpen {index : Nat} (member : index ∈ outer) : index ∈ draft.opened :=
    isOpen ▸ List.mem_cons_of_mem _ member
  have descending := arranged.descending
  rw [isOpen, List.pairwise_cons] at descending
  have walk {ahead visited left : List Nat} (walk : Walk draft.cells ahead visited left) :
      Walk (closedCells draft.cells innermost draft.position stop) ahead visited left :=
    walk.congr fun index _ old isOld => by
      obtain ⟨found, isFound, -, children⟩ := getElem?_closedCells_of_old isOld
      exact ⟨found, isFound, children⟩
  refine ⟨?rootless, arranged.root, ?orphan, ?parent, ?children, ?increasing, ?inner, ?before,
    fun _ _ _ _ => arranged.inside_close isOpen, fun _ _ _ _ => arranged.apart_close isOpen,
    descending.2, ?opens, ?around, ?latest,
    fun index member => walk (arranged.reaches index (wasOpen member)), ?walk⟩
  case rootless =>
    intro noRoot
    rw [size_closedCells]
    exact arranged.rootless noRoot
  case orphan =>
    intro index found isFound
    obtain ⟨old, isOld, -, parent, -⟩ := getElem?_closedCells_cases isFound
    rw [parent]
    exact arranged.orphan index old isOld
  case parent =>
    intro index found above isFound isParent
    obtain ⟨old, isOld, -, parent, -⟩ := getElem?_closedCells_cases isFound
    obtain ⟨earlier, upper, isUpper, openable⟩ :=
      arranged.parent index old above isOld (parent ▸ isParent)
    obtain ⟨closed, isClosed, kind, -⟩ := getElem?_closedCells_of_old isUpper
    exact ⟨earlier, closed, isClosed, openable.of_kind_eq kind⟩
  case children =>
    intro index child
    rw [childrenIn_closedCells, parentIn_closedCells]
    exact arranged.children index child
  case increasing =>
    intro index
    rw [childrenIn_closedCells]
    exact arranged.increasing index
  case inner =>
    intro index found isFound
    obtain ⟨old, isOld, -, -, -, -, -, change⟩ := getElem?_closedCells_cases isFound
    have encloses := arranged.inner index old isOld
    rcases change with ⟨-, rfl⟩ | ⟨-, rfl⟩
    · exact encloses
    · have := Span.encloses_iff.mp encloses
      have := arranged.before index old isOld
      have := old.inner.ordered
      simp only [Cell.closedBetween, Span.encloses_iff, Span.between]
      omega
  case before =>
    intro index found isFound
    obtain ⟨old, isOld, -, -, -, -, -, change⟩ := getElem?_closedCells_cases isFound
    have before := arranged.before index old isOld
    rcases change with ⟨-, rfl⟩ | ⟨-, rfl⟩
    · exact before.trans later
    · have := old.range.ordered
      simp only [Cell.closedBetween, Span.between]
      omega
  case opens =>
    intro index member
    obtain ⟨old, isOld, openable⟩ := arranged.opens index (wasOpen member)
    obtain ⟨closed, isClosed, kind, -⟩ := getElem?_closedCells_of_old isOld
    exact ⟨closed, isClosed, openable.of_kind_eq kind⟩
  case around =>
    intro index member above isParent
    rw [parentIn_closedCells] at isParent
    have isAround := arranged.around index (wasOpen member) above isParent
    rw [isOpen] at isAround
    refine (List.mem_cons.mp isAround).resolve_left fun same => ?_
    have := descending.1 index member
    have := arranged.lt_of_parentIn isParent
    omega
  case latest =>
    intro index member later behind stored
    rw [parentIn_closedCells, parentIn_closedCells]
    exact arranged.latest index (wasOpen member) later behind (size_closedCells .. ▸ stored)
  case walk =>
    intro nonempty
    rw [size_closedCells] at nonempty ⊢
    exact walk (arranged.walk nonempty)

end

/-! ### Placing tokens -/

theorem Arranged.later {draft : Draft} (arranged : draft.Arranged) {position : Nat}
    (further : draft.position ≤ position) : Arranged { draft with position } :=
  { arranged with
    before := fun index cell found => (arranged.before index cell found).trans further }

theorem opened_add (draft : Draft) (cell : Cell) : (draft.add cell).opened = draft.opened := by
  unfold add
  cases cell.parent <;> rfl

section

variable {draft : Draft} (arranged : draft.Arranged)
  (fresh : draft.opened = [] → draft.root = none) (kind : Kind) {size : Nat} {inner : Span}

include arranged fresh

/-- A cell for the bytes of the next token that is complete. -/
theorem Arranged.addComplete
    (encloses : (Span.between draft.position (draft.position + size)).encloses inner) :
    Arranged { draft.add ⟨kind, draft.opened.head?, [],
        .between draft.position (draft.position + size), inner⟩ with
      position := draft.position + size } := by
  have grown : Arranged { draft.add ⟨kind, draft.opened.head?, [],
        .between draft.position (draft.position + size), inner⟩ with
      position := draft.position + size, opened := draft.opened } :=
    arranged.add rfl fresh rfl (Nat.le_refl _) (Nat.le_of_eq (Span.stop_between_add _ _)) encloses
      (fun _ => id) (fun _ => Or.inl) arranged.descending
  simp only [opened_add]
  exact grown

theorem Arranged.openElement (name : String) (size : Nat) :
    let stop := draft.position + size
    Arranged { draft.openElement name (.between draft.position stop) stop with
      position := stop } := by
  intro stop
  have isStop : (Span.between draft.position stop).stop = stop := Span.stop_between_add _ _
  refine arranged.add rfl fresh rfl (Nat.le_refl _) (Nat.le_of_eq isStop) ?_
    (fun _ => List.mem_cons_of_mem _) (fun index member => ?_) ?_
  · rw [Span.encloses_iff, isStop]
    exact ⟨Nat.le_add_right _ _, Nat.le_refl _⟩
  · rcases List.mem_cons.mp member with rfl | before
    · exact Or.inr ⟨rfl, rfl, rfl⟩
    · exact Or.inl before
  · exact List.pairwise_cons.mpr ⟨fun index isOpen => arranged.lt_size isOpen, arranged.descending⟩

end

theorem Arranged.addText {draft : Draft} (arranged : draft.Arranged) (size : Nat)
    (content : Span) :
    let stop := draft.position + size
    Arranged { draft.addText (.between draft.position stop) content with position := stop } := by
  intro stop
  rw [Draft.addText]
  split
  · exact arranged.later (Nat.le_add_right _ _)
  · next isOpen =>
    have fresh : draft.opened = [] → draft.root = none := fun none => by simp [none] at isOpen
    exact arranged.addComplete fresh (.text content)
      (Span.encloses_iff.mpr ⟨Nat.le_refl _, Nat.le_refl _⟩)

theorem fresh_of_mayStart {draft : Draft} {name : String} (starts : draft.mayStart name = .ok ()) :
    draft.opened = [] → draft.root = none := by
  intro noneOpen
  rw [mayStart, noneOpen] at starts
  cases isRoot : draft.root with
  | none => rfl
  | some index => simp [isRoot] at starts

/-- An element that is closed was the innermost open one. -/
theorem close_inversion {draft next : Draft} {name : String} {stop : Nat}
    (closed : draft.close name stop = .ok next) :
    ∃ innermost outer, draft.opened = innermost :: outer ∧ next = { draft with
      opened := outer
      cells := closedCells draft.cells innermost draft.position stop } := by
  unfold Draft.close at closed
  split at closed
  · cases closed
  · next innermost outer isOpen =>
    split at closed
    · cases closed
    · cases closed
      exact ⟨innermost, outer, isOpen, rfl⟩

/-- A token that is placed keeps a draft well arranged. -/
theorem Arranged.step {draft next : Draft} (arranged : draft.Arranged) {token : Token}
    (placed : draft.step token = .ok next) : next.Arranged := by
  unfold Draft.step at placed
  cases token with
  | aside written =>
    cases placed
    exact arranged.later (Nat.le_add_right _ _)
  | text run =>
    cases placed
    exact arranged.addText _ _
  | literal content =>
    cases placed
    exact arranged.addText _ _
  | opening body =>
    obtain ⟨⟨⟩, starts, same⟩ := exists_of_bind_eq_ok placed
    cases same
    exact arranged.openElement (fresh_of_mayStart starts) _ _
  | selfClosing body =>
    obtain ⟨⟨⟩, starts, same⟩ := exists_of_bind_eq_ok placed
    cases same
    refine arranged.addComplete (fresh_of_mayStart starts) _ ?_
    -- The tag takes its angle brackets and its slash at least.
    have : 2 ≤ Text.size (Token.selfClosing body).written := by
      simp [Token.written, Char.utf8Size]
      omega
    simp only [Span.encloses_iff, Span.start_between, Span.stop_between_add, Span.point]
    omega
  | closing body =>
    obtain ⟨closed, isClosed, same⟩ := exists_of_bind_eq_ok placed
    obtain ⟨innermost, outer, isOpen, rfl⟩ := close_inversion isClosed
    cases same
    exact arranged.close isOpen (Nat.le_add_right _ _)

theorem Arranged.run {draft last : Draft} (arranged : draft.Arranged) {tokens : List Token}
    (placed : tokens.foldlM Draft.step draft = .ok last) : last.Arranged := by
  induction tokens generalizing draft with
  | nil =>
    cases placed
    exact arranged
  | cons token rest inductionHypothesis =>
    rw [List.foldlM_cons] at placed
    obtain ⟨next, first, others⟩ := exists_of_bind_eq_ok placed
    exact inductionHypothesis (arranged.step first) others

/-- When nothing is open any more, what is known of a draft is what is wanted of an arena. -/
theorem Arranged.wellArranged {draft : Draft} (arranged : draft.Arranged)
    (noneOpen : draft.opened = []) (source : String) (root_lt : 0 < draft.cells.size) :
    Arena.WellArranged ⟨source, draft.cells, 0, root_lt⟩ := by
  have closed (index : Nat) : index ∉ draft.opened := noneOpen ▸ List.not_mem_nil
  have childrenOf {index : Nat} {cell : Cell} (found : draft.cells[index]? = some cell) :
      cell.children = childrenIn draft.cells index := by
    rw [childrenIn, found]
    rfl
  have parentOf {index child : Nat} {cell within : Cell} (found : draft.cells[index]? = some cell)
      (isChild : child ∈ cell.children) (isWithin : draft.cells[child]? = some within) :
      within.parent = some index := by
    rw [← parentIn_eq isWithin]
    exact (arranged.children index child).mp (childrenOf found ▸ isChild)
  refine ⟨rfl, arranged.orphan, ?parent, arranged.walk (Nat.ne_zero_of_lt root_lt), ?children,
    arranged.inner, ?inside, ?apart, ?leaves⟩
  case parent =>
    intro index cell above found isParent
    obtain ⟨earlier, outer, isOuter, isElement, -⟩ :=
      arranged.parent index cell above found isParent
    exact ⟨earlier, outer, isOuter, isElement⟩
  case children =>
    intro index cell found
    rw [childrenOf found]
    refine List.Pairwise.eq_of_mem_iff (arranged.increasing index)
      (List.pairwise_lt_range.filter _) fun child => ?_
    rw [arranged.children, List.mem_filter, List.mem_range, beq_iff_eq]
    exact ⟨fun isParent => ⟨lt_size_of_parentIn isParent, isParent⟩, And.right⟩
  case inside =>
    intro index cell found child isChild within isWithin
    obtain ⟨begins, ends⟩ := arranged.inside child within index cell isWithin
      (parentOf found isChild isWithin) found
    exact Span.encloses_iff.mpr ⟨begins, ends (closed index)⟩
  case apart =>
    intro index cell found
    have increasing := arranged.increasing index
    rw [← childrenOf found] at increasing
    refine increasing.imp_of_mem fun {earlier later} isEarlier isLater before first second isFirst
      isSecond => ?_
    refine arranged.apart earlier later first second before isFirst isSecond ?_
    rw [parentOf found isEarlier isFirst, parentOf found isLater isSecond]
  case leaves =>
    intro index cell found leaf
    rw [childrenOf found]
    refine List.eq_nil_iff_forall_not_mem.mpr fun child isChild => ?_
    obtain ⟨within, isWithin, isParent⟩ :=
      Option.bind_eq_some_iff.mp ((arranged.children index child).mp isChild)
    obtain ⟨-, outer, isOuter, openable⟩ := arranged.parent child within index isWithin isParent
    obtain rfl := Option.some.inj (found.symm.trans isOuter)
    rw [openable.1, openable.2] at leaf
    simp at leaf

end Draft

/-- The arena of a text is the last draft, in which nothing is open. -/
theorem Arena.exists_of_parse {text : String} {arena : Arena}
    (parsed : Arena.parse text = .ok arena) :
    ∃ draft : Draft, (scan (withoutMark text.toList)).1.foldlM Draft.step Draft.start = .ok draft ∧
      draft.opened = [] ∧ draft.root = some arena.root ∧ draft.cells = arena.cells := by
  obtain ⟨draft, placed, finished⟩ := exists_of_bind_eq_ok parsed
  refine ⟨draft, placed, ?_⟩
  split at finished
  · cases finished
  · unfold Draft.finish at finished
    split at finished
    · cases finished
    · cases finished
    · next root noneOpen isRoot =>
      split at finished
      · cases finished
        exact ⟨List.getLast?_eq_none_iff.mp noneOpen, isRoot, rfl⟩
      · cases finished

/-- The arena of a text is well arranged. -/
theorem Arena.wellArranged_of_parse {text : String} {arena : Arena}
    (parsed : Arena.parse text = .ok arena) : arena.WellArranged := by
  obtain ⟨draft, placed, noneOpen, isRoot, same⟩ := Arena.exists_of_parse parsed
  have arranged := Draft.arranged_start.run placed
  obtain ⟨source, cells, root, root_lt⟩ := arena
  obtain rfl := arranged.root root isRoot
  subst same
  exact arranged.wellArranged noneOpen source root_lt

/-- An element with data and an element inside it. -/
theorem Arena.wellArranged_of_parse_mixed :
    ∃ arena, Arena.parse "<a>x<b/></a>" = .ok arena ∧
      arena.cells.toList.map (fun cell => (cell.parent, cell.children, cell.range.start,
        cell.range.stop)) = [(none, [1, 2], 0, 12), (some 0, [], 3, 4), (some 0, [], 4, 8)] ∧
      arena.WellArranged := by
  have answer : (Arena.parse "<a>x<b/></a>").toOption.map (fun arena =>
      arena.cells.toList.map fun cell => (cell.parent, cell.children, cell.range.start,
        cell.range.stop)) =
      some [(none, [1, 2], 0, 12), (some 0, [], 3, 4), (some 0, [], 4, 8)] := by
    decide +kernel
  obtain ⟨arena, parsed, shown⟩ := Option.map_eq_some_iff.mp answer
  rw [toOption_eq_some_iff] at parsed
  exact ⟨arena, parsed, shown, Arena.wellArranged_of_parse parsed⟩

/-! ### The number of cells -/

namespace Draft

/-- A token adds one cell at most. -/
theorem size_step {draft next : Draft} {token : Token} (placed : draft.step token = .ok next) :
    next.cells.size ≤ draft.cells.size + 1 := by
  have text (range content : Span) :
      (draft.addText range content).cells.size ≤ draft.cells.size + 1 := by
    unfold addText
    split
    · exact Nat.le_succ _
    · exact Nat.le_of_eq (size_add _ _)
  unfold Draft.step at placed
  cases token with
  | aside written =>
    cases placed
    exact Nat.le_succ _
  | text run =>
    cases placed
    exact text _ _
  | literal content =>
    cases placed
    exact text _ _
  | opening body =>
    obtain ⟨⟨⟩, -, same⟩ := exists_of_bind_eq_ok placed
    cases same
    exact Nat.le_of_eq (size_add _ _)
  | selfClosing body =>
    obtain ⟨⟨⟩, -, same⟩ := exists_of_bind_eq_ok placed
    cases same
    exact Nat.le_of_eq (size_add _ _)
  | closing body =>
    obtain ⟨closed, isClosed, same⟩ := exists_of_bind_eq_ok placed
    obtain ⟨innermost, outer, -, rfl⟩ := close_inversion isClosed
    cases same
    exact Nat.le_succ_of_le (Nat.le_of_eq (size_closedCells ..))

theorem size_run {draft last : Draft} {tokens : List Token}
    (placed : tokens.foldlM Draft.step draft = .ok last) :
    last.cells.size ≤ draft.cells.size + tokens.length := by
  induction tokens generalizing draft with
  | nil =>
    cases placed
    exact Nat.le_refl _
  | cons token rest inductionHypothesis =>
    rw [List.foldlM_cons] at placed
    obtain ⟨next, first, others⟩ := exists_of_bind_eq_ok placed
    have := size_step first
    have := inductionHypothesis others
    rw [List.length_cons]
    omega

end Draft

/-- Every token is read from one character at least. -/
theorem length_scan_le (text : List Char) : (scan text).1.length ≤ text.length := by
  induction text using scan.induct with
  | case1 => simp
  | case2 first rest failure read => simp [scan_of_failure read]
  | case3 first rest token after read tokens failure scanned inductionHypothesis =>
    rw [scan_of_read read, List.length_cons]
    exact Nat.lt_of_le_of_lt inductionHypothesis (length_after_next read)

theorem length_withoutMark_le (text : List Char) : (withoutMark text).length ≤ text.length := by
  unfold withoutMark
  split
  · exact Nat.le_succ _
  · exact Nat.le_refl _

/-- An arena has no more cells than its text has characters, so their numbers fit into words of
32 bits unless the text is longer than there are such words. -/
theorem Arena.size_le_of_parse {text : String} {arena : Arena}
    (parsed : Arena.parse text = .ok arena) : arena.cells.size ≤ text.toList.length := by
  obtain ⟨draft, placed, -, -, same⟩ := Arena.exists_of_parse parsed
  calc arena.cells.size = draft.cells.size := by rw [same]
    _ ≤ Draft.start.cells.size + (scan (withoutMark text.toList)).1.length := Draft.size_run placed
    _ = (scan (withoutMark text.toList)).1.length := Nat.zero_add _
    _ ≤ (withoutMark text.toList).length := length_scan_le _
    _ ≤ text.toList.length := length_withoutMark_le _

end PomLens.Markup
