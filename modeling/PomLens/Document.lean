/-
This file defines a document: one snapshot of a descriptor's text, with its path.

The library works on byte offsets and an editor on positions, that is, lines and columns.
`positionAt` and `offsetAt` pass from one to the other. Both take any argument: an offset
past the end or inside a character, and a line or column that the text does not have, are
moved to the nearest place before them that the text does have.
-/

import PomLens.Path
import PomLens.Text.Lines
import PomLens.Text.Span

namespace PomLens

/-- A place in a text as an editor names it, both parts counted from zero. -/
structure Position where
  line : Nat
  /-- Column in UTF-16 units. -/
  character : Nat
  deriving DecidableEq, Repr

/-- A pair of positions. -/
structure PositionRange where
  start : Position
  stop : Position
  deriving DecidableEq, Repr

/-- A snapshot of a descriptor's text. An edit makes a new one, and the offsets of the old
one mean nothing for it. -/
structure Document where
  /-- Where the descriptor is stored, as it was spelled. -/
  path : Path
  text : String
  deriving DecidableEq, Repr

namespace Document

/-- The characters of the text. -/
def chars (document : Document) : List Char :=
  document.text.toList

/-! ### Offsets and positions -/

/-- The position of a byte offset, given the lines from `line` on. -/
def positionIn (line offset : Nat) : List (List Char) → Position
  | [] => ⟨line, 0⟩
  | [last] => ⟨line, Text.units (Text.takeBytes offset last)⟩
  | first :: next :: rest =>
    if offset < Text.size first then ⟨line, Text.units (Text.takeBytes offset first)⟩
    else positionIn (line + 1) (offset - Text.size first) (next :: rest)

/-- The position of a byte offset. -/
def positionAt (document : Document) (offset : Nat) : Position :=
  positionIn 0 offset (Text.brokenLines document.chars)

/-- The byte offset of a position. A line past the last one means the end of the text; a
column past the end of its line means the end of the line, before the break. -/
def offsetAt (document : Document) (position : Position) : Nat :=
  let lines := Text.brokenLines document.chars
  match lines[position.line]? with
  | none => Text.size document.chars
  | some line =>
    Text.size (lines.take position.line).flatten +
      Text.size (Text.takeUnits position.character (Text.withoutReturns line))

/-- The positions at the two ends of a span. -/
def rangeOf (document : Document) (span : Span) : PositionRange :=
  ⟨document.positionAt span.start, document.positionAt span.stop⟩

/-- The span between the offsets of two positions. -/
def spanOf (document : Document) (range : PositionRange) : Span :=
  .between (document.offsetAt range.start) (document.offsetAt range.stop)

/-! ### Layout -/

/-- The part of a text after its last line feed. -/
def lastLine (text : List Char) : List Char :=
  (text.reverse.takeWhile (· != '\n')).reverse

/-- The spaces and tabs at the start of the line that an offset lies on. Only a line feed
ends a line here. An offset past the end counts as the end; one inside a character has no
line. -/
def lineIndent? (document : Document) (offset : Nat) : Option (List Char) := do
  let text := document.chars
  let (before, after) ← Text.cut? (min offset (Text.size text)) text
  return (lastLine before ++ after).takeWhile fun char => char == ' ' || char == '\t'

/-- The line ending in use: a carriage return with a line feed if the text has one
anywhere, else a line feed. -/
def eol (document : Document) : String :=
  if hasReturnFeed document.chars then "\r\n" else "\n"
where
  hasReturnFeed : List Char → Bool
    | '\r' :: '\n' :: _ => true
    | _ :: rest => hasReturnFeed rest
    | [] => false

end Document

end PomLens
