/-
This file reports version conflicts of a document.

A conflict is a dependency that lost to another version of the same artifact. The user can
do nothing about the line of the report that names it, but about the direct dependency that
pulled it in; so the diagnostic stands at the element that declares that dependency. A
conflict whose direct dependency is not declared in the document has no diagnostic.
-/

import PomLens.Project
import PomLens.Remedy.Conflict
import PomLens.Settings

namespace PomLens

open Markup (Tree MarkupError)
open Report (Forest)

/-! ### Diagnostics -/

/-- A warning at a place of a document. -/
structure Diagnostic where
  range : PositionRange
  message : String
  deriving DecidableEq, Repr

/-- The code of all diagnostics. -/
def Diagnostic.code : String := "Maven dependency conflict"

/-- What all diagnostics say they come from. -/
def Diagnostic.source : String := "pomsense"

/-- The severity of all diagnostics: that of a warning. -/
def Diagnostic.severity : Nat := 2

/-- A diagnostic with what it was computed from. -/
structure Finding where
  diagnostic : Diagnostic
  /-- The number of the omitted node. -/
  node : Nat
  /-- The omitted artifact. -/
  key : ArtifactKey
  version : String
  /-- The version that was chosen instead. -/
  effectiveVersion : String
  /-- The direct dependency that pulled the artifact in. -/
  root : ArtifactKey
  deriving DecidableEq, Repr

namespace Finding

/-- What a conflict between two versions is called. -/
def describe (root : ArtifactKey) (entry : Report.Entry) : String :=
  s!"Dependency conflict in {root.artifact}: {entry.coordinate.render} conflict with {entry.effectiveVersion}"

/-- The finding for a node, given the document's tree. -/
def of? (document : Document) (tree : Tree) (forest : Forest) (index : Nat) :
    Option Finding := do
  let node ← forest.nodes[index]?
  let root ← forest.nodes[node.root]?
  let declaration ← tree.declarationOf? root.entry.key
  let diagnostic : Diagnostic :=
    ⟨document.rangeOf declaration.element.range, describe root.entry.key node.entry⟩
  some ⟨diagnostic, index, node.entry.key, node.entry.version, node.entry.effectiveVersion,
    root.entry.key⟩

/-- The title of the action that remedies the conflict. -/
def actionTitle (finding : Finding) : String :=
  s!"Resolve conflict for {finding.key.render}"

/-- The edits that pin the artifact to a version. There are none if that version is in
effect already. -/
def resolve (finding : Finding) (document : Document) (chosen : String)
    (style : Remedy.Style) : Except RemedyError (Option (List PositionEdit)) := do
  let set ← Remedy.pin document finding.key finding.effectiveVersion chosen style
  return set.map fun set => set.positionEdits document

end Finding

/-- The findings for all conflicts of a forest, in report order. -/
def findings (document : Document) (forest : Forest) : Except MarkupError (List Finding) := do
  let tree ← Tree.parse document.text
  return forest.conflicts.filterMap (Finding.of? document tree forest)

/-- The diagnostic for one node. There is none if the document is not one element. -/
def diagnosticFor? (document : Document) (forest : Forest) (index : Nat) :
    Option Diagnostic :=
  match Tree.parse document.text with
  | .error _ => none
  | .ok tree => (Finding.of? document tree forest index).map Finding.diagnostic

/-! ### Publishing -/

/-- The diagnostics that were last published for each path. Paths with the same steps are
one. -/
structure Board where
  sets : List (Path × List Diagnostic)
  deriving DecidableEq, Repr

namespace Board

/-- Nothing was ever published. -/
def empty : Board :=
  ⟨[]⟩

/-- What was last published for a path. -/
def get? (board : Board) (path : Path) : Option (List Diagnostic) :=
  (board.sets.find? fun (other, _) => other.same path).map Prod.snd

/-- Replaces all that was published for a path. The spelling first used for it stays. -/
def publish (board : Board) (path : Path) (diagnostics : List Diagnostic) : Board :=
  ⟨publishIn board.sets⟩
where
  publishIn : List (Path × List Diagnostic) → List (Path × List Diagnostic)
    | [] => [(path, diagnostics)]
    | (other, old) :: rest =>
      if other.same path then (other, diagnostics) :: rest else (other, old) :: publishIn rest

/-- All that was published, in the order of the paths. -/
def sorted (board : Board) : List (Path × List Diagnostic) :=
  board.sets.mergeSort fun first second => first.1.le second.1

end Board

/-- What a refresh did. -/
inductive RefreshOutcome
  /-- So many diagnostics were published. -/
  | published (count : Nat)
  /-- Conflicts are not reported; no diagnostics were published. -/
  | disabled
  /-- The document is not one element; what was published before stays. -/
  | skipped
  deriving DecidableEq, Repr

/-- Publishes the diagnostics of a document, given the project's tree. Without a tree there
are none. -/
def refresh (document : Document) (project : Project) (settings : DiagnosticsSettings)
    (board : Board) : Board × RefreshOutcome :=
  if !settings.conflicts then (board.publish document.path [], .disabled)
  else
    let forest := (project.tree.map TreeView.forest).getD .empty
    match findings document forest with
    | .error _ => (board, .skipped)
    | .ok found =>
      (board.publish document.path (found.map Finding.diagnostic), .published found.length)

end PomLens
