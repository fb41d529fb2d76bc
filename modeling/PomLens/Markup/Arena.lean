/-
This file stores the elements and the character data of a document in an arena.

The tokens of the text are read from the left. An opening tag adds a cell for its element, and
the cells that are added until its closing tag stand below it. Character data get a cell below the
innermost open element. A cell refers to others by their numbers: it names its parent and its
children, and both are entered when the later of the two is added. Data outside every element are
dropped, and so is everything that carries no content. What remains at the end must be exactly one
element. The first token that cannot be so placed decides the error.

Every cell has the span of bytes it was read from. While an element is open its span is that of
its opening tag, and what is inside it is the place behind that; its closing tag sets the ends of
both. A byte order mark at the start of the text is passed over and takes no space, so behind one
all spans lie three bytes early.
-/

import PomLens.Markup.Token
import PomLens.Text.Span

namespace PomLens.Markup

/-! ### Cells -/

/-- What a cell stands for. -/
inductive Kind
  | element (name : String) (selfClosing : Bool)
  /-- A run of character data, or a literal section whose content is without its brackets. -/
  | text (content : Span)
  deriving DecidableEq, Repr

/-- An element or a run of data as an arena keeps it. Cells have the numbers of their positions
in the arena. -/
structure Cell where
  kind : Kind
  /-- The element around it. -/
  parent : Option Nat
  /-- What is directly inside it, in the order of the text. -/
  children : List Nat
  /-- From the `<` of the opening tag to past the `>` of the closing tag. A literal section is
  covered with its brackets. -/
  range : Span
  /-- Between the two tags. A self-closing element has the empty span before its `/>`, and text
  its whole span. -/
  inner : Span
  deriving DecidableEq, Repr

namespace Cell

/-- The name of an element. Text has none. -/
def name? (cell : Cell) : Option String :=
  match cell.kind with
  | .element name _ => some name
  | .text _ => none

def isText (cell : Cell) : Bool :=
  cell.name?.isNone

def isSelfClosing (cell : Cell) : Bool :=
  match cell.kind with
  | .element _ selfClosing => selfClosing
  | .text _ => false

/-- The cell with one more child. -/
def withChild (cell : Cell) (child : Nat) : Cell :=
  { cell with children := cell.children ++ [child] }

/-- The cell of an element whose closing tag stands between two offsets. -/
def closedBetween (cell : Cell) (start stop : Nat) : Cell :=
  { cell with
    range := .between cell.range.start stop
    inner := .between cell.inner.start start }

end Cell

/-- The cells of a document. -/
structure Arena where
  /-- The text that the cells were read from. -/
  source : String
  cells : Array Cell
  /-- The number of the root element. -/
  root : Nat
  root_lt : root < cells.size

/-- Why a text is not one element. Positions are byte offsets. -/
inductive MarkupError
  /-- No token can be read. The position lies just behind what was passed. -/
  | malformed (position : Nat) (fault : SyntaxFault)
  /-- A closing tag whose name is not that of the innermost open element. -/
  | mismatchedEnd (position : Nat) (expected found : String)
  /-- The text ends before the outermost open element does. -/
  | unclosed (position : Nat) (name : String)
  /-- A second element behind the root. -/
  | multipleRoots (position : Nat) (name : String)
  /-- No element at all. -/
  | empty
  deriving DecidableEq, Repr

def MarkupError.message : MarkupError → String
  | .malformed position fault => s!"malformed markup at byte {position}: {fault.message}"
  | .mismatchedEnd position expected found =>
    s!"mismatched closing tag at byte {position}: expected </{expected}>, found </{found}>"
  | .unclosed position name => s!"element <{name}> opened at byte {position} is never closed"
  | .multipleRoots position name => s!"second root element <{name}> at byte {position}"
  | .empty => "no root element"

/-! ### Filling an arena -/

/-- The state between two tokens. -/
structure Draft where
  /-- The offset of the next token. -/
  position : Nat
  cells : Array Cell
  /-- The numbers of the open elements, the innermost first. -/
  opened : List Nat
  /-- The number of the root, once it has a cell. -/
  root : Option Nat

namespace Draft

/-- Nothing read yet. -/
def start : Draft :=
  ⟨0, #[], [], none⟩

/-- Adds a cell behind the others and enters it with its parent. A cell without a parent is the
root. -/
def add (draft : Draft) (cell : Cell) : Draft :=
  let index := draft.cells.size
  let cells := draft.cells.push cell
  match cell.parent with
  | none => { draft with cells, root := some index }
  | some above => { draft with cells := cells.modify above fun outer => outer.withChild index }

/-- An element may start here: inside another one, or where there is no root yet. -/
def mayStart (draft : Draft) (name : String) : Except MarkupError Unit :=
  if draft.opened.isEmpty && draft.root.isSome then
    throw (.multipleRoots draft.position name)
  else return ()

/-- Adds an element below the innermost open one, or as the root. -/
def addElement (draft : Draft) (name : String) (selfClosing : Bool) (range inner : Span) : Draft :=
  draft.add ⟨.element name selfClosing, draft.opened.head?, [], range, inner⟩

/-- Opens an element whose opening tag ends at `stop`. -/
def openElement (draft : Draft) (name : String) (range : Span) (stop : Nat) : Draft :=
  { draft.addElement name false range (.point stop) with
    opened := draft.cells.size :: draft.opened }

/-- Adds character data, unless no element is open. -/
def addText (draft : Draft) (range content : Span) : Draft :=
  if draft.opened.isEmpty then draft
  else draft.add ⟨.text content, draft.opened.head?, [], range, range⟩

/-- The name of an element. -/
def name? (draft : Draft) (index : Nat) : Option String :=
  draft.cells[index]? >>= Cell.name?

/-- Closes the innermost open element by a tag with this name, which ends at `stop`. -/
def close (draft : Draft) (name : String) (stop : Nat) : Except MarkupError Draft :=
  match draft.opened with
  | [] => throw (.malformed stop (.closesNothing name))
  | innermost :: outer =>
    match (draft.name? innermost).filter (· ≠ name) with
    | some expected => throw (.mismatchedEnd draft.position expected name)
    | none => return { draft with
        opened := outer
        cells := draft.cells.modify innermost fun cell =>
          cell.closedBetween draft.position stop }

/-- Places one token. -/
def step (draft : Draft) (token : Token) : Except MarkupError Draft := do
  let start := draft.position
  let stop := start + Text.size token.written
  let range := Span.between start stop
  let placed ←
    match token with
    | .aside _ => pure draft
    | .text _ => pure (draft.addText range range)
    | .literal _ =>
      pure (draft.addText range (.between (start + 1 + literalStart.length) (stop - "]]>".length)))
    | .opening body =>
      draft.mayStart (tagName body)
      pure (draft.openElement (tagName body) range stop)
    | .selfClosing body =>
      draft.mayStart (tagName body)
      pure (draft.addElement (tagName body) true range (.point (stop - 2)))
    | .closing body => draft.close (closingName body) stop
  return { placed with position := stop }

/-- The arena of the text `source`, when its end is reached. -/
def finish (source : String) (draft : Draft) : Except MarkupError Arena :=
  match draft.opened.getLast?, draft.root with
  | some outermost, _ =>
    throw (.unclosed ((draft.cells[outermost]?.map fun cell => cell.range.start).getD 0)
      ((draft.name? outermost).getD ""))
  | none, none => throw .empty
  | none, some root =>
    if root_lt : root < draft.cells.size then return ⟨source, draft.cells, root, root_lt⟩
    else throw .empty

end Draft

/-- The text behind a byte order mark, if it starts with one. -/
def withoutMark : List Char → List Char
  | '\uFEFF' :: rest => rest
  | text => text

/-- The arena of a text. -/
def Arena.parse (text : String) : Except MarkupError Arena := do
  let (tokens, failure) := scan (withoutMark text.toList)
  let draft ← tokens.foldlM Draft.step Draft.start
  match failure with
  | some failure =>
    throw (.malformed (draft.position + Text.size failure.passed) failure.fault)
  | none => draft.finish text

end PomLens.Markup
