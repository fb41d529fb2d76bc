/-
This file defines the forest of resolved dependencies that a report describes.

The roots are the direct dependencies of a project and everything below a root was pulled in
by it. The nodes are kept in report order and refer to each other by number. A node names
its parent, its root and its children, and the forest names its roots, so that each of them
is found without a search. A node that is added is entered in all of these accounts.
-/

import PomLens.Artifact

namespace PomLens.Report

/-! ### Nodes -/

/-- Why the build tool left a node out. -/
inductive OmissionReason
  /-- Another version of the artifact was chosen. -/
  | conflict
  /-- The same version is already present elsewhere. -/
  | duplicate
  /-- The node would close a cycle. -/
  | cycle
  deriving DecidableEq, Repr

def OmissionReason.name : OmissionReason → String
  | .conflict => "conflict"
  | .duplicate => "duplicate"
  | .cycle => "cycle"

/-- A node's omission, with the version that is in effect instead. -/
structure Omission where
  reason : OmissionReason
  effectiveVersion : String
  deriving DecidableEq, Repr

/-- The remark that a listing makes on an omitted node. Only a conflict names the other
version. -/
def Omission.render (omission : Omission) : String :=
  match omission.reason with
  | .conflict => s!"omitted for conflict with {omission.effectiveVersion}"
  | reason => s!"omitted for {reason.name}"

/-- The project that a report is about. -/
structure Header where
  group : String
  artifact : String
  packaging : String
  version : String
  deriving DecidableEq, Repr

/-- What one line says about one dependency. -/
structure Entry where
  group : String
  artifact : String
  packaging : String
  classifier : Option String
  /-- The version asked for here, whether or not it is in effect. -/
  version : String
  scope : String
  isOptional : Bool
  omission : Option Omission
  deriving DecidableEq, Repr

namespace Entry

/-- The node lost to another version. -/
def isConflict (entry : Entry) : Bool :=
  entry.omission.any fun omission => omission.reason == .conflict

/-- The version in effect for the artifact. -/
def effectiveVersion (entry : Entry) : String :=
  match entry.omission with
  | none => entry.version
  | some omission => omission.effectiveVersion

def key (entry : Entry) : ArtifactKey :=
  ⟨entry.group, entry.artifact⟩

def coordinate (entry : Entry) : Coordinate :=
  ⟨entry.group, entry.artifact, some entry.version⟩

end Entry

/-- An entry and its place in the forest. Numbers count nodes in report order from zero. -/
structure Node where
  entry : Entry
  parent : Option Nat
  /-- The direct dependency above the node, itself for a root. -/
  root : Nat
  /-- The number of nodes above it. -/
  depth : Nat
  /-- The line of the report, counted from one. -/
  line : Nat
  /-- The nodes directly below it, in report order. -/
  children : List Nat
  deriving DecidableEq, Repr

/-- The node with one more node below it. -/
def Node.withChild (node : Node) (child : Nat) : Node :=
  { node with children := node.children ++ [child] }

/-! ### Forests -/

structure Forest where
  header : Option Header
  nodes : Array Node
  /-- The direct dependencies, in report order. -/
  roots : List Nat
  deriving DecidableEq, Repr

namespace Forest

/-- The forest of a project without dependencies. -/
def empty : Forest :=
  ⟨none, #[], []⟩

/-- The number of nodes. -/
def size (forest : Forest) : Nat :=
  forest.nodes.size

/-- The numbers of the nodes for which `holds`, in report order. -/
def indicesWhere (forest : Forest) (holds : Node → Bool) : List Nat :=
  (List.range forest.size).filter fun index => forest.nodes[index]?.any holds

/-- The nodes directly below a node. -/
def children (forest : Forest) (index : Nat) : List Nat :=
  (forest.nodes[index]?.map Node.children).getD []

/-- The nodes that lost to another version. -/
def conflicts (forest : Forest) : List Nat :=
  forest.indicesWhere fun node => node.entry.isConflict

/-- The nodes of an artifact. -/
def find (forest : Forest) (key : ArtifactKey) : List Nat :=
  forest.indicesWhere fun node => node.entry.key == key

/-- The parent of a node. -/
def parent? (forest : Forest) (index : Nat) : Option Nat :=
  forest.nodes[index]? >>= Node.parent

/-- The nodes above a node, nearest first. Parents have smaller numbers, so the number of a
node bounds the climb. -/
def ancestors (forest : Forest) (index : Nat) : List Nat :=
  climb (index + 1) index
where
  climb : Nat → Nat → List Nat
    | 0, _ => []
    | steps + 1, index =>
      match forest.parent? index with
      | none => []
      | some parent => parent :: climb steps parent

/-! ### Growth -/

/-- The forest with one more node, below its parent if it has one. -/
def add (forest : Forest) (parent : Option Nat) (line depth : Nat) (entry : Entry) : Forest :=
  let index := forest.size
  let root := (parent >>= fun above => forest.nodes[above]?.map Node.root).getD index
  let nodes := forest.nodes.push ⟨entry, parent, root, depth, line, []⟩
  match parent with
  | none => { forest with nodes, roots := forest.roots ++ [index] }
  | some above => { forest with nodes := nodes.modify above fun node => node.withChild index }

end Forest

end PomLens.Report
