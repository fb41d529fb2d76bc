/-
This file reads the element tree of a document off its arena.

An element becomes a node around the nodes of its children, which stand later in the arena, so the
nodes are made from the last cell to the first, and each finds its children among those made
before. A text node has the data of its cell without blanks at either end. Everything else in
the library looks at nodes.
-/

import PomLens.Markup.Arena

namespace PomLens.Markup

/-! ### Trees -/

/-- The name of an element and where it stands. -/
structure Tag where
  name : String
  selfClosing : Bool
  /-- From the `<` of the opening tag to past the `>` of the closing tag. -/
  range : Span
  /-- Between the two tags. A self-closing element has the empty span before its `/>`. -/
  inner : Span
  deriving DecidableEq, Repr

/-- A run of character data or a literal section inside an element. -/
structure TextRun where
  /-- The whole run, a literal section with its brackets. -/
  range : Span
  /-- The data without blanks at either end. It is empty if the data are blank, and also if
  the data's span cuts a character, as it may behind a byte order mark. -/
  body : Span
  /-- The characters in the body. -/
  value : String
  deriving DecidableEq, Repr

inductive Node
  | text (run : TextRun)
  | element (tag : Tag) (children : List Node)
  deriving Repr

/-- A document's markup: its root element. -/
structure Tree where
  root : Node
  deriving Repr

/-! ### Reading an arena -/

/-- The text node for the data in `content`, which are part of what `range` covers. -/
def TextRun.ofSpan (source : List Char) (range content : Span) : TextRun :=
  match content.slice? source with
  | none => ⟨range, .point content.start, ""⟩
  | some data =>
    let value := Text.trim data
    let start := content.start + (Text.size data - Text.size (Text.trimStart data))
    ⟨range, .between start (start + Text.size value), String.ofList value⟩

/-- The node of a cell, whose children have the nodes that are looked up. -/
def Cell.node (cell : Cell) (source : List Char) (child? : Nat → Option Node) : Node :=
  match cell.kind with
  | .text content => .text (.ofSpan source cell.range content)
  | .element name selfClosing =>
    .element ⟨name, selfClosing, cell.range, cell.inner⟩ (cell.children.filterMap child?)

/-- The nodes of cells, the first of which has the number `index`. The children of a cell are
among the cells behind it. -/
def nodesFrom (source : List Char) (index : Nat) : List Cell → List Node
  | [] => []
  | cell :: rest =>
    let behind := nodesFrom source (index + 1) rest
    cell.node source (fun child => behind[child - (index + 1)]?) :: behind

@[simp] theorem length_nodesFrom (source : List Char) (index : Nat) (cells : List Cell) :
    (nodesFrom source index cells).length = cells.length := by
  induction cells generalizing index with
  | nil => rfl
  | cons cell rest ih => simp [nodesFrom, ih]

/-- The tree that an arena stores. -/
def Arena.tree (arena : Arena) : Tree where
  root := (nodesFrom arena.source.toList 0 arena.cells.toList).get
    ⟨arena.root, by simpa using arena.root_lt⟩

/-- The tree of a text. -/
def Tree.parse (text : String) : Except MarkupError Tree :=
  (Arena.parse text).map Arena.tree

/-! ### Looking at nodes -/

namespace Node

/-- The name of an element. Text has none. -/
def name? : Node → Option String
  | .text _ => none
  | .element tag _ => some tag.name

def isText : Node → Bool
  | .text _ => true
  | .element _ _ => false

def isSelfClosing : Node → Bool
  | .text _ => false
  | .element tag _ => tag.selfClosing

/-- The span that the node was read from. -/
def range : Node → Span
  | .text run => run.range
  | .element tag _ => tag.range

/-- The span between the two tags of an element, and the whole span of a text. -/
def inner : Node → Span
  | .text run => run.range
  | .element tag _ => tag.inner

def children : Node → List Node
  | .text _ => []
  | .element _ children => children

/-- The children that are elements of this name. -/
def elementsNamed (node : Node) (name : String) : List Node :=
  node.children.filter fun child => child.name? == some name

/-- The first child element of this name. -/
def child? (node : Node) (name : String) : Option Node :=
  node.children.find? fun child => child.name? == some name

/-- The text of a text node that is not blank. -/
def run? : Node → Option TextRun
  | .text run => if run.body.isEmpty then none else some run
  | .element _ _ => none

/-- The first text that is not blank: of an element, among its children; of a text node, its
own. -/
def firstRun? (node : Node) : Option TextRun :=
  match node with
  | .text _ => node.run?
  | .element _ children => children.findSome? run?

/-- The text of a node, without blanks at either end. -/
def text? (node : Node) : Option String :=
  node.firstRun?.map TextRun.value

/-- Where the text of a node stands. An element without text has the place behind its
opening tag, and blank text its own empty body. -/
def textSpan (node : Node) : Span :=
  match node with
  | .text run => run.body
  | .element tag _ => (node.firstRun?.map TextRun.body).getD (.point tag.inner.start)

/-- The text of the first child element of this name. -/
def childText? (node : Node) (name : String) : Option String :=
  node.child? name >>= text?

end Node

end PomLens.Markup
