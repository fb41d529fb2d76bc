/-
This file proves that the arena of a text stores the tree that is read off it.

A builder puts nodes together where an arena keeps cells: an element becomes a node when its
closing tag is read, around the nodes that were read inside it. `Stores` says which cells nodes
have, and `StoresOpen` which cells there are for elements that are still open. Both are kept by
every token (`Follows.step`), so the builder fails where the arena does, and otherwise the node that
it ends with is the one that the cells stand for. That gives the tree of a text by a builder
(`Tree.parse_eq`), and for each of its places the cell with that number (`Arena.places_tree`).
-/

import PomLens.Proofs.Markup.Numbering
import PomLens.Proofs.Outcome
import Mathlib.Data.List.Forall2

namespace PomLens

namespace Markup

/-! ### Building nodes -/

/-- An element whose closing tag has not been read. -/
structure OpenElement where
  name : String
  /-- Where its opening tag starts. -/
  start : Nat
  /-- Where its opening tag ends. -/
  inner : Nat
  /-- The nodes read inside it so far, the latest first. -/
  children : List Node

/-- The state between two tokens, in nodes. -/
structure Builder where
  /-- The offset of the next token. -/
  position : Nat
  /-- The open elements, the innermost first. -/
  opened : List OpenElement
  /-- The root, once it is closed. -/
  root : Option Node

namespace Builder

/-- Nothing read yet. -/
def start : Builder :=
  ⟨0, [], none⟩

/-- Puts a finished node into the innermost open element. Where none is open it becomes the
root. -/
def add (builder : Builder) (node : Node) : Builder :=
  match builder.opened with
  | [] => { builder with root := some node }
  | inside :: outer =>
    { builder with opened := { inside with children := node :: inside.children } :: outer }

/-- An element may start here: inside another one, or where there is no root yet. -/
def mayStart (builder : Builder) (name : String) : Except MarkupError Unit :=
  if builder.opened.isEmpty && builder.root.isSome then
    throw (.multipleRoots builder.position name)
  else return ()

/-- Adds character data, unless no element is open. -/
def addText (builder : Builder) (source : List Char) (range content : Span) : Builder :=
  if builder.opened.isEmpty then builder
  else builder.add (.text (.ofSpan source range content))

/-- Closes the innermost open element by a tag with this name, which ends at `stop`. -/
def close (builder : Builder) (name : String) (stop : Nat) : Except MarkupError Builder :=
  match builder.opened with
  | [] => throw (.malformed stop (.closesNothing name))
  | inside :: outer =>
    if inside.name ≠ name then
      throw (.mismatchedEnd builder.position inside.name name)
    else
      let tag : Tag :=
        ⟨name, false, .between inside.start stop, .between inside.inner builder.position⟩
      return ({ builder with opened := outer }).add (.element tag inside.children.reverse)

/-- Places one token of the text `source`. -/
def step (source : List Char) (builder : Builder) (token : Token) :
    Except MarkupError Builder := do
  let start := builder.position
  let stop := start + Text.size token.written
  let range := Span.between start stop
  let placed ←
    match token with
    | .aside _ => pure builder
    | .text _ => pure (builder.addText source range range)
    | .literal _ =>
      pure (builder.addText source range
        (.between (start + 1 + literalStart.length) (stop - "]]>".length)))
    | .opening body =>
      builder.mayStart (tagName body)
      pure { builder with opened := ⟨tagName body, start, stop, []⟩ :: builder.opened }
    | .selfClosing body =>
      builder.mayStart (tagName body)
      pure (builder.add (.element ⟨tagName body, true, range, .point (stop - 2)⟩ []))
    | .closing body => builder.close (closingName body) stop
  return { placed with position := stop }

/-- The tree, when the end of the text is reached. -/
def finish (builder : Builder) : Except MarkupError Tree :=
  match builder.opened.getLast?, builder.root with
  | some outermost, _ => throw (.unclosed outermost.start outermost.name)
  | none, none => throw .empty
  | none, some root => return ⟨root⟩

/-- The tree that is built of a text. -/
def parse (text : String) : Except MarkupError Tree := do
  let source := text.toList
  let (tokens, failure) := scan (withoutMark source)
  let builder ← tokens.foldlM (step source) start
  match failure with
  | some failure =>
    throw (.malformed (builder.position + Text.size failure.passed) failure.fault)
  | none => builder.finish

end Builder

/-! ### The cells of nodes -/

/-- The numbers of sibling nodes, the first of which has the number `index`. -/
def numbersFrom (index : Nat) : List Node → List Nat
  | [] => []
  | node :: rest => index :: numbersFrom (index + node.count) rest

theorem numbersFrom_append (index : Nat) (first second : List Node) :
    numbersFrom index (first ++ second) =
      numbersFrom index first ++ numbersFrom (index + countAll first) second := by
  induction first generalizing index with
  | nil => rfl
  | cons node rest inductionHypothesis =>
    simp [numbersFrom, countAll, inductionHypothesis, Nat.add_assoc]

theorem le_of_mem_numbersFrom {index number : Nat} {nodes : List Node}
    (member : number ∈ numbersFrom index nodes) : index ≤ number := by
  induction nodes generalizing index with
  | nil => cases member
  | cons node rest inductionHypothesis =>
    rcases List.mem_cons.mp member with rfl | further
    · exact Nat.le_refl _
    · exact Nat.le_trans (Nat.le_add_right _ _) (inductionHypothesis further)

theorem map_index_siblings (around : List (Nat × Node)) (index : Nat) (nodes : List Node) :
    (Place.siblings around index nodes).map Place.index = numbersFrom index nodes := by
  induction nodes generalizing index with
  | nil => rfl
  | cons node rest inductionHypothesis =>
    rw [Place.siblings, List.map_cons, inductionHypothesis, numbersFrom]

/-- What the cells from some number on stand for is the same if earlier ones are read too. -/
theorem drop_nodesFrom (source : List Char) (index : Nat) (first second : List Cell) :
    (nodesFrom source index (first ++ second)).drop first.length =
      nodesFrom source (index + first.length) second := by
  induction first generalizing index with
  | nil => rfl
  | cons cell rest inductionHypothesis =>
    simp [nodesFrom, inductionHypothesis, Nat.add_assoc, Nat.add_comm 1]

/-- Nodes that stand behind a node and the cells inside it are found without looking at these. -/
theorem filterMap_nodesFrom_behind (source : List Char) (index : Nat) (first second : List Cell)
    (node : Node) (nodes : List Node) :
    (numbersFrom (index + (first.length + 1)) nodes).filterMap
        (fun child => (node :: nodesFrom source (index + 1) (first ++ second))[child - index]?) =
      (numbersFrom (index + (first.length + 1)) nodes).filterMap (fun child =>
        (nodesFrom source (index + (first.length + 1)) second)[
          child - (index + (first.length + 1))]?) := by
  refine List.filterMap_congr fun child member => ?_
  have bound := le_of_mem_numbersFrom member
  have behind := drop_nodesFrom source (index + 1) first second
  rw [show index + 1 + first.length = index + (first.length + 1) by omega] at behind
  rw [← behind, List.getElem?_drop, show child - index = (child - index - 1) + 1 by omega,
    List.getElem?_cons_succ]
  congr 1
  omega

/-- The cells that stand for sibling nodes and everything inside them, numbered from `index`
on. -/
inductive Stores (source : List Char) : Option Nat → Nat → List Node → List Cell → Prop
  | nil (parent : Option Nat) (index : Nat) : Stores source parent index [] []
  | text {parent : Option Nat} {index : Nat} {range content : Span} {nodes : List Node}
      {cells : List Cell} (behind : Stores source parent (index + 1) nodes cells) :
      Stores source parent index (.text (.ofSpan source range content) :: nodes)
        (⟨.text content, parent, [], range, range⟩ :: cells)
  | element {parent : Option Nat} {index : Nat} {tag : Tag} {children nodes : List Node}
      {inside cells : List Cell}
      (within : Stores source (some index) (index + 1) children inside)
      (behind : Stores source parent (index + 1 + inside.length) nodes cells) :
      Stores source parent index (.element tag children :: nodes)
        (⟨.element tag.name tag.selfClosing, parent, numbersFrom (index + 1) children, tag.range,
          tag.inner⟩ :: (inside ++ cells))

namespace Stores

variable {source : List Char} {parent : Option Nat} {index : Nat} {nodes : List Node}
  {cells : List Cell}

theorem length_eq (stores : Stores source parent index nodes cells) :
    cells.length = countAll nodes := by
  induction stores with
  | nil parent index => rfl
  | text _ inductionHypothesis =>
    simp [countAll, Node.count, inductionHypothesis, Nat.add_comm]
  | element _ _ withinHypothesis inductionHypothesis =>
    simp [countAll, Node.count, withinHypothesis, inductionHypothesis]
    omega

theorem append {further : List Node} {others : List Cell}
    (stores : Stores source parent index nodes cells)
    (behind : Stores source parent (index + cells.length) further others) :
    Stores source parent index (nodes ++ further) (cells ++ others) := by
  induction stores with
  | nil parent index => exact behind
  | text _ inductionHypothesis =>
    exact .text (inductionHypothesis (by simpa [Nat.add_assoc, Nat.add_comm 1] using behind))
  | @element parent index tag children nodes inside cells within _ _ inductionHypothesis =>
    have placed : Stores source parent index (.element tag children :: (nodes ++ further)) _ :=
      .element within (inductionHypothesis (by
        simpa [Nat.add_assoc, Nat.add_comm, Nat.add_left_comm] using behind))
    simpa using placed

/-- The nodes that are read off the cells of nodes are these. -/
theorem nodesFrom_eq (stores : Stores source parent index nodes cells) (behind : List Cell) :
    (numbersFrom index nodes).filterMap
        (fun child => (nodesFrom source index (cells ++ behind))[child - index]?) = nodes := by
  induction stores generalizing behind with
  | nil parent index => rfl
  | @text parent index range content nodes cells _ inductionHypothesis =>
    have others := filterMap_nodesFrom_behind source index [] (cells ++ behind)
      (.text (.ofSpan source range content)) nodes
    rw [List.length_nil, Nat.zero_add, inductionHypothesis behind, List.nil_append] at others
    simp only [numbersFrom, Node.count, List.filterMap_cons, List.cons_append, nodesFrom,
      Cell.node, Nat.sub_self, List.getElem?_cons_zero]
    rw [others]
  | @element parent index tag children nodes inside cells within _ withinHypothesis
      inductionHypothesis =>
    have size : (Node.element tag children).count = inside.length + 1 := by
      rw [Node.count, within.length_eq, Nat.add_comm]
    have others := filterMap_nodesFrom_behind source index inside (cells ++ behind)
      (.element tag children) nodes
    rw [show index + (inside.length + 1) = index + 1 + inside.length by omega,
      inductionHypothesis behind] at others
    simp only [numbersFrom, List.filterMap_cons, List.cons_append, List.append_assoc, nodesFrom,
      Cell.node, Nat.sub_self, List.getElem?_cons_zero, withinHypothesis (cells ++ behind)]
    rw [size, show index + (inside.length + 1) = index + 1 + inside.length by omega, others]

end Stores

/-! ### The cells of open elements -/

theorem modify_append_cons {α : Type} {first : List α} {index : Nat} (place : first.length = index)
    (value : α) (rest : List α) (change : α → α) :
    (first ++ value :: rest).modify index change = first ++ change value :: rest := by
  subst place
  simp [List.modify_eq_take_drop]

theorem modify_append_of_lt {α : Type} {first : List α} {index : Nat} (inside : index < first.length)
    (rest : List α) (change : α → α) :
    (first ++ rest).modify index change = first.modify index change ++ rest := by
  induction first generalizing index with
  | nil => cases inside
  | cons value others inductionHypothesis =>
    cases index with
    | zero => rfl
    | succ index =>
      simp [inductionHypothesis (Nat.lt_of_succ_lt_succ inside)]

theorem exists_getLast? {α β : Type} {related : α → β → Prop} {left : α} {right : β} {lefts : List α}
    {rights : List β} (first : related left right) (rest : List.Forall₂ related lefts rights) :
    ∃ one other, (left :: lefts).getLast? = some one ∧ (right :: rights).getLast? = some other ∧
      related one other := by
  induction rest generalizing left right with
  | nil => exact ⟨left, right, rfl, rfl, first⟩
  | cons next _ inductionHypothesis =>
    rw [List.getLast?_cons_cons, List.getLast?_cons_cons]
    exact inductionHypothesis next

/-- The cell of an element that is not closed. -/
def OpenElement.cell (element : OpenElement) (parent : Option Nat) (index : Nat) : Cell where
  kind := .element element.name false
  parent
  children := numbersFrom (index + 1) element.children.reverse
  range := .between element.start element.inner
  inner := .point element.inner

/-- The cells after one of them is entered with its parent. -/
def linked (parent : Option Nat) (child : Nat) (cells : List Cell) : List Cell :=
  match parent with
  | none => cells
  | some above => cells.modify above fun outer => outer.withChild child

@[simp] theorem length_linked (parent : Option Nat) (child : Nat) (cells : List Cell) :
    (linked parent child cells).length = cells.length := by
  cases parent <;> simp [linked]

/-- The cells that stand for open elements with these numbers, and for the nodes read inside
them. -/
inductive StoresOpen (source : List Char) : List Nat → List OpenElement → List Cell → Prop
  | nil : StoresOpen source [] [] []
  | cons {opened : List Nat} {element : OpenElement} {outer : List OpenElement}
      {cells inside : List Cell} (around : StoresOpen source opened outer cells)
      (within : Stores source (some cells.length) (cells.length + 1) element.children.reverse
        inside) :
      StoresOpen source (cells.length :: opened) (element :: outer)
        (linked opened.head? cells.length cells ++
          element.cell opened.head? cells.length :: inside)

namespace StoresOpen

variable {source : List Char} {index : Nat} {opened : List Nat} {element : OpenElement}
  {outer : List OpenElement} {cells : List Cell}

theorem exists_eq_cons (stores : StoresOpen source opened (element :: outer) cells) :
    ∃ innermost others, opened = innermost :: others := by
  cases stores with
  | cons around within => exact ⟨_, _, rfl⟩

theorem lt_length (stores : StoresOpen source (index :: opened) outer cells) :
    index < cells.length := by
  cases stores with
  | cons around within => simp

/-- The cells of one more node stand behind the others and below the innermost element. -/
theorem add (stores : StoresOpen source (index :: opened) (element :: outer) cells) {node : Node}
    {added : List Cell} (below : Stores source (some index) cells.length [node] added) :
    StoresOpen source (index :: opened)
      ({ element with children := node :: element.children } :: outer)
      (linked (some index) cells.length cells ++ added) := by
  cases stores with
  | @cons _ _ _ cells inside around within =>
    have behind : cells.length + 1 + inside.length =
        (linked opened.head? cells.length cells ++
          element.cell opened.head? cells.length :: inside).length := by
      simp
      omega
    have grown : StoresOpen source (cells.length :: opened)
        ({ element with children := node :: element.children } :: outer) _ :=
      .cons around (by
        rw [List.reverse_cons]
        exact within.append (behind ▸ below))
    have place : (linked opened.head? cells.length cells ++
        element.cell opened.head? cells.length :: inside).modify cells.length
          (fun above => above.withChild (cells.length + 1 + inside.length)) =
        linked opened.head? cells.length cells ++
          OpenElement.cell { element with children := node :: element.children } opened.head?
            cells.length :: inside := by
      rw [modify_append_cons (length_linked _ _ _)]
      simp [OpenElement.cell, Cell.withChild, numbersFrom_append, numbersFrom, within.length_eq]
    rw [linked, ← behind, place]
    simpa using grown

/-- A new element stands behind all others. -/
theorem openAt (stores : StoresOpen source opened outer cells) (name : String) (start inner : Nat) :
    StoresOpen source (cells.length :: opened) (⟨name, start, inner, []⟩ :: outer)
      (linked opened.head? cells.length
        (cells ++ [⟨.element name false, opened.head?, [], .between start inner, .point inner⟩])) := by
  have grown : StoresOpen source (cells.length :: opened) (⟨name, start, inner, []⟩ :: outer) _ :=
    .cons stores (.nil _ _)
  cases opened with
  | nil => exact grown
  | cons above others =>
    rw [List.head?_cons, linked, modify_append_of_lt stores.lt_length]
    exact grown

/-- What a cell says stays as it is when others are entered and added, except for its children. -/
theorem getElem?_linked_append {number : Nat} {cell : Cell} (found : cells[number]? = some cell)
    (parent : Option Nat) (child : Nat) (behind : List Cell) :
    ∃ children, (linked parent child cells ++ behind)[number]? = some { cell with children } := by
  have inside : number < (linked parent child cells).length := by
    rw [length_linked]
    exact (List.getElem?_eq_some_iff.mp found).1
  rw [List.getElem?_append_left inside]
  cases parent with
  | none => exact ⟨cell.children, found⟩
  | some above =>
    rw [linked, List.getElem?_modify, found]
    by_cases same : above = number
    · exact ⟨cell.children ++ [child], by simp [same, Cell.withChild]⟩
    · exact ⟨cell.children, by simp [same]⟩

/-- The cells of open elements have their names and start where they do. -/
theorem heads (stores : StoresOpen source opened outer cells) :
    List.Forall₂ (fun number (element : OpenElement) => ∃ cell : Cell,
      cells[number]? = some cell ∧ cell.name? = some element.name ∧
        cell.range.start = element.start) opened outer := by
  induction stores with
  | nil => exact .nil
  | @cons opened element outer cells inside _ _ inductionHypothesis =>
    refine .cons ⟨element.cell opened.head? cells.length, by simp, rfl, rfl⟩
      (inductionHypothesis.imp fun number around ⟨cell, found, named, starts⟩ => ?_)
    obtain ⟨children, kept⟩ := getElem?_linked_append found opened.head? cells.length
      (element.cell opened.head? cells.length :: inside)
    exact ⟨{ cell with children }, kept, named, starts⟩

/-- The innermost element is closed. It is then a node inside the next, or the only one. -/
theorem close (stores : StoresOpen source (index :: opened) (element :: outer) cells)
    (start stop : Nat) :
    let tag : Tag :=
      ⟨element.name, false, .between element.start stop, .between element.inner start⟩
    let node := Node.element tag element.children.reverse
    let closed := cells.modify index fun cell => cell.closedBetween start stop
    (∃ around outermost, outer = around :: outermost ∧ StoresOpen source opened
      ({ around with children := node :: around.children } :: outermost) closed) ∨
    (opened = [] ∧ outer = [] ∧ index = 0 ∧ Stores source none 0 [node] closed) := by
  intro tag node closed
  cases stores with
  | @cons _ _ _ cells inside around within =>
    have whole : closed = linked opened.head? cells.length cells ++
        ⟨.element tag.name tag.selfClosing, opened.head?,
          numbersFrom (cells.length + 1) element.children.reverse, tag.range, tag.inner⟩ ::
          (inside ++ []) := by
      rw [List.append_nil]
      exact modify_append_cons (length_linked _ _ _) _ _ _
    have single : Stores source opened.head? cells.length [node] _ := .element within (.nil _ _)
    rw [whole]
    cases around with
    | nil => exact Or.inr ⟨rfl, rfl, rfl, single⟩
    | cons further inner => exact Or.inl ⟨_, _, rfl, (StoresOpen.cons further inner).add single⟩

end StoresOpen

/-! ### Placing tokens -/

/-- A draft has the cells for what a builder has built. -/
inductive Follows (source : List Char) : Draft → Builder → Prop
  | outside (position : Nat) {root : Option Node} {cells : Array Cell}
      (stores : Stores source none 0 root.toList cells.toList) :
      Follows source ⟨position, cells, [], root.map fun _ => 0⟩ ⟨position, [], root⟩
  | inside (position : Nat) {opened : List Nat} {element : OpenElement} {outer : List OpenElement}
      {cells : Array Cell} (stores : StoresOpen source opened (element :: outer) cells.toList) :
      Follows source ⟨position, cells, opened, some 0⟩ ⟨position, element :: outer, none⟩

namespace Follows

variable {source : List Char} {draft : Draft} {builder : Builder}

theorem position (follows : Follows source draft builder) : draft.position = builder.position := by
  cases follows <;> rfl

theorem start (source : List Char) : Follows source Draft.start Builder.start :=
  @outside source 0 none #[] (.nil none 0)

/-- A node that is complete is added inside the innermost element. -/
theorem addInside (position : Nat) {index : Nat} {opened : List Nat} {element : OpenElement}
    {outer : List OpenElement} {cells : Array Cell}
    (stores : StoresOpen source (index :: opened) (element :: outer) cells.toList) {kind : Kind}
    {range inner : Span} {node : Node}
    (leaf : Stores source (some index) cells.size [node] [⟨kind, some index, [], range, inner⟩]) :
    Follows source
      (Draft.add ⟨position, cells, index :: opened, some 0⟩ ⟨kind, some index, [], range, inner⟩)
      (Builder.add ⟨position, element :: outer, none⟩ node) := by
  have grown := stores.add leaf
  rw [linked, ← modify_append_of_lt stores.lt_length, Array.length_toList] at grown
  exact .inside position (by simpa using grown)

theorem addText (follows : Follows source draft builder) (range content : Span) :
    Follows source (draft.addText range content)
      (builder.addText source range content) := by
  cases follows with
  | outside position stores => exact .outside position stores
  | @inside position opened element outer cells stores =>
    obtain ⟨index, opened, rfl⟩ := stores.exists_eq_cons
    exact addInside position stores (.text (.nil _ _))

/-- Both allow an element to start, or neither does. -/
theorem mayStart (follows : Follows source draft builder) (name : String) :
    Agree (fun _ _ => builder.opened = [] → builder.root = none) (draft.mayStart name)
      (builder.mayStart name) := by
  cases follows with
  | @outside position root cells stores =>
    cases root with
    | none => exact .ok fun _ => rfl
    | some node => exact .error _
  | @inside position opened element outer cells stores =>
    obtain ⟨index, opened, rfl⟩ := stores.exists_eq_cons
    exact .ok fun _ => rfl

theorem addElement (follows : Follows source draft builder)
    (fresh : builder.opened = [] → builder.root = none) (name : String) (range inner : Span) :
    Follows source (draft.addElement name true range inner)
      (builder.add (.element ⟨name, true, range, inner⟩ [])) := by
  have leaf (parent : Option Nat) (index : Nat) : Stores source parent index
      [.element ⟨name, true, range, inner⟩ []] [⟨.element name true, parent, [], range, inner⟩] :=
    .element (.nil _ _) (.nil _ _)
  cases follows with
  | @outside position root cells stores =>
    obtain rfl : root = none := fresh rfl
    obtain ⟨cells⟩ := cells
    cases stores
    exact @outside source position (some _) _ (leaf none 0)
  | @inside position opened element outer cells stores =>
    obtain ⟨index, opened, rfl⟩ := stores.exists_eq_cons
    exact addInside position stores (leaf _ _)

theorem openElement (follows : Follows source draft builder)
    (fresh : builder.opened = [] → builder.root = none) (name : String) (start stop : Nat) :
    Follows source (draft.openElement name (.between start stop) stop)
      { builder with opened := ⟨name, start, stop, []⟩ :: builder.opened } := by
  cases follows with
  | @outside position root cells stores =>
    obtain rfl : root = none := fresh rfl
    obtain ⟨cells⟩ := cells
    cases stores
    exact .inside position (StoresOpen.nil.openAt name start stop)
  | @inside position opened element outer cells stores =>
    have grown := stores.openAt name start stop
    obtain ⟨index, opened, rfl⟩ := stores.exists_eq_cons
    exact .inside position (by simpa [linked, Draft.addElement, Draft.add] using grown)

theorem close (follows : Follows source draft builder) (name : String) (stop : Nat) :
    Agree (Follows source) (draft.close name stop) (builder.close name stop) := by
  cases follows with
  | outside position stores => exact .error _
  | @inside position opened element outer cells stores =>
    obtain ⟨index, opened, rfl⟩ := stores.exists_eq_cons
    obtain ⟨⟨cell, found, named, -⟩, -⟩ := List.forall₂_cons.mp stores.heads
    rw [Array.getElem?_toList] at found
    have isName : Draft.name? ⟨position, cells, index :: opened, some 0⟩ index =
        some element.name := by
      rw [Draft.name?, found]
      exact named
    simp only [Draft.close, isName, Option.filter_some, Builder.close]
    by_cases same : element.name = name
    · subst same
      have closed := stores.close position stop
      rw [← Array.toList_modify] at closed
      simp only [ne_eq, not_true_eq_false, decide_false, Bool.false_eq_true, ↓reduceIte]
      rcases closed with ⟨around, outermost, rfl, inner⟩ | ⟨rfl, rfl, rfl, node⟩
      · exact .ok (.inside position inner)
      · exact .ok (@outside source position (some _) _ node)
    · simp only [ne_eq, same, not_false_eq_true, decide_true, ↓reduceIte]
      exact .error _

/-- One token leads to states that agree, or is refused in the same way. -/
theorem step (follows : Follows source draft builder) (token : Token) :
    Agree (Follows source) (draft.step token) (builder.step source token) := by
  have moved {draft : Draft} {builder : Builder} (follows : Follows source draft builder)
      (position : Nat) : Agree (Follows source) (pure { draft with position })
        (pure { builder with position } : Except MarkupError Builder) := by
    cases follows with
    | outside _ stores => exact .ok (.outside position stores)
    | inside _ stores => exact .ok (.inside position stores)
  simp only [Draft.step, Builder.step, follows.position]
  cases token with
  | aside written => exact moved follows _
  | text run => exact moved (follows.addText _ _) _
  | literal content => exact moved (follows.addText _ _) _
  | opening body =>
    exact (follows.mayStart _).bind fun _ _ fresh => moved (follows.openElement fresh _ _ _) _
  | selfClosing body =>
    exact (follows.mayStart _).bind fun _ _ fresh => moved (follows.addElement fresh _ _ _) _
  | closing body => exact (follows.close _ _).bind fun _ _ placed => moved placed _

/-- At the end of the text there is a tree whose cells are those of the arena. -/
theorem finish (follows : Follows source draft builder) (text : String) :
    Agree (fun arena tree => arena.source = text ∧ arena.root = 0 ∧
      Stores source none 0 [tree.root] arena.cells.toList)
      (draft.finish text) builder.finish := by
  cases follows with
  | @outside position root cells stores =>
    cases root with
    | none => exact .error _
    | some node =>
      have root_lt : 0 < cells.size := by
        rw [← Array.length_toList, stores.length_eq, Option.toList_some, countAll, node.count_eq]
        omega
      simp only [Draft.finish, Option.map_some, List.getLast?_nil, root_lt, ↓reduceDIte]
      exact .ok ⟨rfl, rfl, stores⟩
  | @inside position opened element outer cells stores =>
    obtain ⟨index, opened, rfl⟩ := stores.exists_eq_cons
    obtain ⟨first, others⟩ := List.forall₂_cons.mp stores.heads
    obtain ⟨number, outermost, isNumber, isOutermost, cell, found, named, starts⟩ :=
      exists_getLast? first others
    rw [Array.getElem?_toList] at found
    simp only [Draft.finish, isNumber, found, Option.map_some, starts, Option.getD_some,
      Draft.name?, Option.bind_eq_bind, Option.bind_some, named, Builder.finish, isOutermost]
    exact .error _

end Follows

/-! ### Arenas and trees -/

/-- The arena of a text and the tree that is built of it agree. -/
theorem parse_agree (text : String) :
    Agree (fun arena tree => arena.source = text ∧ arena.root = 0 ∧
      Stores text.toList none 0 [tree.root] arena.cells.toList)
      (Arena.parse text) (Builder.parse text) := by
  have run := Agree.foldlM (fun _ _ token follows => Follows.step follows token)
    (scan (withoutMark text.toList)).1 (Follows.start text.toList)
  simp only [Arena.parse, Builder.parse]
  refine run.bind fun draft builder follows => ?_
  cases (scan (withoutMark text.toList)).2 with
  | none => exact follows.finish text
  | some failure =>
    have position : draft.position = builder.position := follows.position
    simp only [position]
    exact .error _

/-- The tree of an arena is the node that its cells stand for. -/
theorem Arena.tree_eq {arena : Arena} {node : Node} (root : arena.root = 0)
    (stores : Stores arena.source.toList none 0 [node] arena.cells.toList) :
    arena.tree = ⟨node⟩ := by
  have read := stores.nodesFrom_eq []
  simp only [numbersFrom, List.filterMap_cons, List.filterMap_nil, Nat.sub_zero,
    List.append_nil] at read
  obtain ⟨source, cells, number, root_lt⟩ := arena
  subst root
  simp only at read
  have found : (nodesFrom source.toList 0 cells.toList)[0]? = some
      ((nodesFrom source.toList 0 cells.toList).get ⟨0, by simpa using root_lt⟩) :=
    List.getElem?_eq_getElem _
  rw [found] at read
  simp only [Arena.tree]
  exact congrArg Tree.mk (List.cons.inj read).1

/-- The tree of a text is the one that a builder makes of its tokens, and there is none for the
same reason. -/
theorem Tree.parse_eq (text : String) : Tree.parse text = Builder.parse text := by
  have agree := parse_agree text
  rw [Tree.parse]
  generalize Arena.parse text = stored, Builder.parse text = built at agree ⊢
  cases agree with
  | error failure => rfl
  | @ok arena tree results =>
    obtain ⟨rfl, root, stores⟩ := results
    exact congrArg Except.ok (Arena.tree_eq root stores)

/-- A place has the cell: what the cell says about it can be seen from the place. -/
structure Place.HasCell (place : Place) (cell : Cell) : Prop where
  name : place.node.name? = cell.name?
  isText : place.node.isText = cell.isText
  isSelfClosing : place.node.isSelfClosing = cell.isSelfClosing
  parent : place.parent?.map Place.index = cell.parent
  children : place.children.map Place.index = cell.children
  range : place.node.range = cell.range
  inner : place.node.inner = cell.inner

@[simp] theorem TextRun.range_ofSpan (source : List Char) (range content : Span) :
    (TextRun.ofSpan source range content).range = range := by
  unfold TextRun.ofSpan
  split <;> rfl

theorem Place.map_index_parent? (place : Place) :
    place.parent?.map Place.index = place.around.head?.map Prod.fst := by
  obtain ⟨index, node, around⟩ := place
  cases around <;> rfl

/-- The places of nodes have the cells that the nodes have. -/
theorem Stores.hasCell {source : List Char} {parent : Option Nat} {index : Nat}
    {nodes : List Node} {cells : List Cell} (stores : Stores source parent index nodes cells)
    {around : List (Nat × Node)} (below : around.head?.map Prod.fst = parent) :
    List.Forall₂ Place.HasCell (placesOf around index nodes) cells := by
  induction stores generalizing around with
  | nil parent index =>
    rw [placesOf]
    exact .nil
  | text _ inductionHypothesis =>
    simp only [placesOf, Node.places, List.cons_append, List.nil_append, Node.count]
    refine .cons ⟨rfl, rfl, rfl, ?_, rfl, ?_, ?_⟩ (inductionHypothesis below)
    · exact (Place.map_index_parent? _).trans below
    · exact TextRun.range_ofSpan _ _ _
    · exact TextRun.range_ofSpan _ _ _
  | @element parent index tag children nodes inside cells within _ withinHypothesis
      inductionHypothesis =>
    have inner : List.Forall₂ Place.HasCell
        (placesOf ((index, .element tag children) :: around) (index + 1) children) inside :=
      withinHypothesis rfl
    have size : (Node.element tag children).count = 1 + inside.length := by
      rw [Node.count, within.length_eq]
    simp only [placesOf, Node.places, List.cons_append, size, ← Nat.add_assoc]
    refine .cons ⟨rfl, rfl, rfl, ?_, ?_, rfl, rfl⟩
      (List.rel_append inner (inductionHypothesis below))
    · exact (Place.map_index_parent? _).trans below
    · exact map_index_siblings _ _ _

/-- The places of the tree that is read off an arena have its cells, each that with its number. -/
theorem Arena.places_tree {text : String} {arena : Arena} (parsed : Arena.parse text = .ok arena) :
    List.Forall₂ Place.HasCell arena.tree.places arena.cells.toList := by
  have agree := parse_agree text
  rw [parsed] at agree
  generalize Builder.parse text = built at agree
  cases agree with
  | @ok _ tree results =>
    obtain ⟨rfl, root, stores⟩ := results
    rw [Arena.tree_eq root stores]
    have places : List.Forall₂ Place.HasCell (placesOf [] 0 [tree.root]) arena.cells.toList :=
      stores.hasCell rfl
    rwa [placesOf, placesOf, List.append_nil] at places

end Markup

end PomLens
