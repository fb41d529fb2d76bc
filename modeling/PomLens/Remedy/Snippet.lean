/-
This file writes elements into a document with the layout of their surroundings.

A snippet is an element to be written. It goes in as the first or the last content of a
container, one tag or value a line, each line indented one level more than what is around
it. An element is taken out together with its line if nothing else stands there. Each such
change is a single edit of the document's text.
-/

import PomLens.Artifact
import PomLens.Edit
import PomLens.Markup.Tree

namespace PomLens

open Markup (Node)

namespace Remedy

/-- How new markup is laid out. -/
structure Style where
  /-- One level of indentation. -/
  indent : String
  /-- The end of a line. -/
  eol : String
  deriving DecidableEq, Repr

/-- Four spaces a level, and lines end with a line feed. -/
def Style.standard : Style :=
  ⟨"    ", "\n"⟩

/-! ### Snippets -/

/-- An element to be written. -/
inductive Snippet
  /-- An element with a text. -/
  | leaf (name value : String)
  /-- An element with further elements. -/
  | branch (name : String) (children : List Snippet)
  deriving Repr

def openingTag (name : String) : String := "<" ++ name ++ ">"

def closingTag (name : String) : String := "</" ++ name ++ ">"

mutual

/-- The lines of a snippet at a level, each with its own level. -/
def Snippet.lines (level : Nat) : Snippet → List (Nat × String)
  | .leaf name value => [(level, openingTag name ++ value ++ closingTag name)]
  | .branch name children =>
    (level, openingTag name) :: linesOf (level + 1) children ++ [(level, closingTag name)]

/-- The lines of the snippets inside an element. -/
def linesOf (level : Nat) : List Snippet → List (Nat × String)
  | [] => []
  | snippet :: rest => snippet.lines level ++ linesOf level rest

end

/-- A line of its own: its end comes first, since it follows something on another line. -/
def renderLine (base : String) (style : Style) (line : Nat × String) : String :=
  style.eol ++ base ++ String.join (List.replicate line.1 style.indent) ++ line.2

/-- The lines of a snippet one level below lines indented by `base`. -/
def Snippet.render (snippet : Snippet) (base : String) (style : Style) : String :=
  String.join ((snippet.lines 1).map (renderLine base style))

/-- A dependency on a version of an artifact. -/
def Snippet.dependency (key : ArtifactKey) (version : String) : Snippet :=
  .branch "dependency"
    [.leaf "groupId" key.group, .leaf "artifactId" key.artifact, .leaf "version" version]

/-- An exclusion of an artifact. -/
def Snippet.exclusion (key : ArtifactKey) : Snippet :=
  .branch "exclusion" [.leaf "groupId" key.group, .leaf "artifactId" key.artifact]

/-! ### Edits that write and remove elements -/

/-- The indentation of the line on which a node starts. There is none when the node's span
cuts a character, as it may behind a byte order mark. -/
def baseIndent? (document : Document) (node : Node) : Option String :=
  (document.lineIndent? node.range.start).map String.ofList

/-- Turns a self-closing element into one with the snippet inside. Its attributes are
lost. -/
def expand? (document : Document) (element : Node) (snippet : Snippet) (style : Style) :
    Option Edit := do
  let base ← baseIndent? document element
  let name := element.name?.getD ""
  return ⟨element.range,
    openingTag name ++ snippet.render base style ++ style.eol ++ base ++ closingTag name⟩

/-- Writes a snippet as the first content of an element. -/
def insertFirst? (document : Document) (container : Node) (snippet : Snippet)
    (style : Style) : Option Edit := do
  if container.isSelfClosing then expand? document container snippet style
  else
    let base ← baseIndent? document container
    return .insert container.inner.start (snippet.render base style)

/-- Writes a snippet as the last content of an element, in place of the blanks before its
closing tag. -/
def insertLast? (document : Document) (container : Node) (snippet : Snippet)
    (style : Style) : Option Edit := do
  if container.isSelfClosing then expand? document container snippet style
  else
    let base ← baseIndent? document container
    let content := (container.inner.slice? document.chars).getD []
    let start := container.inner.start + Text.size (Text.trimEnd content)
    return ⟨.between start container.inner.stop,
      snippet.render base style ++ style.eol ++ base⟩

/-- The text before and after the end of the line that starts here, if the line ends. -/
def splitLine? : List Char → Option (List Char × List Char)
  | [] => none
  | char :: rest =>
    if char = '\n' then some ([char], rest)
    else (splitLine? rest).map fun (line, after) => (char :: line, after)

/-- Removes an element, with its whole line if only blanks stand around it there. -/
def delete? (document : Document) (element : Node) : Option Edit := do
  let text := document.chars
  let range := element.range
  let (before, _) ← Text.cut? range.start text
  let (_, after) ← Text.cut? range.stop text
  let lead := Document.lastLine before
  match splitLine? after with
  | some (tail, _) =>
    if Text.blank lead && Text.blank tail then
      return .delete (.between (range.start - Text.size lead) (range.stop + Text.size tail))
    else return .delete range
  | none => return .delete range

end Remedy

end PomLens
