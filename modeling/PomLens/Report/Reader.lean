/-
This file reads a dependency report line by line.

Between two lines the reader remembers the nodes so far, the path from a root to the last
node, and whether the report began with a project header, which moves every node one level
to the right. The first line that cannot be read decides the error, and nothing behind it
matters.
-/

import PomLens.Report.Line
import PomLens.Text.Span

namespace PomLens.Report

/-- The state between two lines. -/
structure Reader where
  forest : Forest
  /-- The path to the last node, that node first and its root last. -/
  path : List Nat
  /-- The level of the roots. -/
  rootLevel : Nat
  /-- A line that is not blank has been read. -/
  started : Bool

namespace Reader

/-- Nothing read yet. -/
def start : Reader :=
  ⟨.empty, [], 0, false⟩

/-- The part of the path that stays open for a node at this depth. -/
def openPath (reader : Reader) (depth : Nat) : List Nat :=
  reader.path.drop (reader.path.length - depth)

/-- Adds a node at this depth, below the last node of the depth before. -/
def addEntry (reader : Reader) (line depth : Nat) (entry : Entry) : Reader :=
  let path := reader.openPath depth
  { reader with
    forest := reader.forest.add path.head? line depth entry
    path := reader.forest.size :: path }

/-- Reads the body of a node at this level. -/
def readEntry (reader : Reader) (line level : Nat) (body : List Char) :
    Except ReportError Reader :=
  if level < reader.rootLevel then throw (.misplacedHeader line)
  else
    let depth := level - reader.rootLevel
    if reader.path.length < depth then throw (.orphan line depth)
    else return reader.addEntry line depth (← Entry.parse line body)

/-- Reads one line. A blank one is passed over. -/
def readLine (reader : Reader) (raw : List Char) (line : Nat) : Except ReportError Reader :=
  let bare := bareLine raw
  if Text.blank bare then return reader
  else
    let body := bare.dropWhile isConnector
    let width := Text.size bare - Text.size body
    if width % levelWidth ≠ 0 then throw (.indentation line width)
    else
      let level := width / levelWidth
      match if level = 0 then Header.parse? body else none with
      | none => { reader with started := true }.readEntry line level body
      | some header =>
        if reader.started then throw (.misplacedHeader line)
        else
          return { reader with
            forest := { reader.forest with header := some header }
            rootLevel := 1
            started := true }

/-- Reads the lines from the one with this number on. -/
def readLines (reader : Reader) (line : Nat) : List (List Char) → Except ReportError Reader
  | [] => return reader
  | raw :: rest => do
    let reader ← reader.readLine raw line
    reader.readLines (line + 1) rest

end Reader

/-- The forest that a report describes. -/
def Forest.parse (report : String) : Except ReportError Forest := do
  let reader ← Reader.start.readLines 1 (Text.lines report.toList)
  return reader.forest

/-! ### Listing a forest -/

/-- The line that a listing gives to a node: its coordinate and scope, indented by its
depth, and a remark if it is omitted. -/
def Node.listing (node : Node) : String :=
  let indent := String.join (List.replicate (node.depth + 1) "   ")
  let remark :=
    match node.entry.omission with
    | none => ""
    | some omission => s!" [{omission.render}]"
  s!"{indent}{node.entry.coordinate.render} ({node.entry.scope}){remark}\n"

/-- The listing of a forest: the project, if it is known, and a line for each node. -/
def Forest.listing (forest : Forest) : String :=
  let project :=
    match forest.header with
    | none => ""
    | some header => s!"{header.group}:{header.artifact}:{header.version}\n"
  project ++ String.join (forest.nodes.toList.map Node.listing)

end PomLens.Report
