/-
This file reads a project descriptor from its markup.

Only what navigation and diagnosis need is kept, and it is kept as written: placeholders
are not filled in and nothing is inherited. A text that the build tool merged from several
projects wraps their elements in one more element, of which one project is selected.
-/

import PomLens.Markup.Declaration
import PomLens.Report.Line

namespace PomLens

open Markup (Node Tree MarkupError)

/-! ### Contents -/

/-- Where the descriptor of a parent lies. -/
inductive ParentLocation
  /-- Nothing is said: one directory up. -/
  | standard
  /-- The element is there and empty: not on disk. -/
  | notOnDisk
  /-- Read from the directory of the child. -/
  | relative (path : String)
  deriving DecidableEq, Repr

/-- The reference to a parent project. -/
structure ParentReference where
  group : Option String
  artifact : Option String
  version : Option String
  location : ParentLocation
  deriving DecidableEq, Repr

/-- A dependency as written. -/
structure DeclaredDependency where
  group : Option String
  artifact : Option String
  version : Option String
  scope : Option String
  packaging : Option String
  classifier : Option String
  deriving DecidableEq, Repr

/-- The dependency names this artifact. -/
def DeclaredDependency.declares (dependency : DeclaredDependency) (key : ArtifactKey) : Bool :=
  dependency.group == some key.group && dependency.artifact == some key.artifact

/-- A plugin as written, its group filled in if it names none. -/
structure DeclaredPlugin where
  group : String
  artifact : Option String
  version : Option String
  deriving DecidableEq, Repr

/-- Properties in the order of their first mention, one value for each name. -/
structure Properties where
  entries : List (String × String)
  deriving DecidableEq, Repr

namespace Properties

/-- The value of a property. -/
def value? (properties : Properties) (name : String) : Option String :=
  properties.entries.lookup name

/-- Sets a property. One that is already there keeps its place. -/
def set (properties : Properties) (name value : String) : Properties :=
  ⟨setIn properties.entries⟩
where
  setIn : List (String × String) → List (String × String)
    | [] => [(name, value)]
    | (other, old) :: rest =>
      if other = name then (name, value) :: rest else (other, old) :: setIn rest

def names (properties : Properties) : List String :=
  properties.entries.map Prod.fst

end Properties

structure Descriptor where
  group : Option String
  artifact : Option String
  version : Option String
  name : Option String
  packaging : Option String
  parent : Option ParentReference
  modules : List String
  properties : Properties
  dependencies : List DeclaredDependency
  managedDependencies : List DeclaredDependency
  plugins : List DeclaredPlugin
  deriving DecidableEq, Repr

/-- Why a descriptor or a report cannot be understood. -/
inductive ParseError
  | markup (error : MarkupError)
  /-- The root element is not a project. -/
  | notAProject (root : String)
  | report (error : Report.ReportError)
  deriving DecidableEq, Repr

def ParseError.message : ParseError → String
  | .markup error => error.message
  | .notAProject root => s!"root element is <{root}>, expected <project>"
  | .report error => error.message

namespace Descriptor

/-- A descriptor that says nothing. -/
def empty : Descriptor :=
  ⟨none, none, none, none, none, none, [], ⟨[]⟩, [], [], []⟩

/-! ### Reading -/

/-- The reference in a `parent` element. -/
def parentReference (element : Node) : ParentReference where
  group := element.childText? "groupId"
  artifact := element.childText? "artifactId"
  version := element.childText? "version"
  location :=
    match element.child? "relativePath" with
    | none => .standard
    | some path =>
      match path.text? with
      | none => .notOnDisk
      | some relative => .relative relative

/-- The dependencies in a `dependencies` element. -/
def dependenciesIn (container : Node) : List DeclaredDependency :=
  (container.elementsNamed "dependency").map fun element =>
    { group := element.childText? "groupId"
      artifact := element.childText? "artifactId"
      version := element.childText? "version"
      scope := element.childText? "scope"
      packaging := element.childText? "type"
      classifier := element.childText? "classifier" }

/-- The plugins in a `plugins` element. -/
def pluginsIn (container : Node) : List DeclaredPlugin :=
  (container.elementsNamed "plugin").map fun element =>
    { group := (element.childText? "groupId").getD Markup.standardPluginGroup
      artifact := element.childText? "artifactId"
      version := element.childText? "version" }

/-- The properties in a `properties` element. One without text is empty. -/
def propertiesIn (container : Node) : Properties :=
  container.children.foldl
    (fun properties element =>
      match element.name? with
      | none => properties
      | some name => properties.set name (element.text?.getD ""))
    ⟨[]⟩

/-- What a `project` element says. -/
def ofElement (project : Node) : Descriptor where
  group := project.childText? "groupId"
  artifact := project.childText? "artifactId"
  version := project.childText? "version"
  name := project.childText? "name"
  packaging := project.childText? "packaging"
  parent := (project.child? "parent").map parentReference
  modules :=
    match project.child? "modules" with
    | none => []
    | some modules => (modules.elementsNamed "module").filterMap Node.text?
  properties := ((project.child? "properties").map propertiesIn).getD ⟨[]⟩
  dependencies := ((project.child? "dependencies").map dependenciesIn).getD []
  managedDependencies :=
    ((project.child? "dependencyManagement" >>= fun management =>
      management.child? "dependencies").map dependenciesIn).getD []
  plugins :=
    ((project.child? "build" >>= fun build => build.child? "plugins").map pluginsIn).getD []

/-- The root element of a text. -/
def rootElement (text : String) : Except ParseError Node :=
  match Tree.parse text with
  | .error error => throw (.markup error)
  | .ok tree => return tree.root

/-- Reads a text whose root element is a project. -/
def parse (text : String) : Except ParseError Descriptor := do
  let root ← rootElement text
  if root.name? = some "project" then return ofElement root
  else throw (.notAProject (root.name?.getD ""))

/-- Reads what the build tool merged. Of several projects the first whose artifact name is
`artifact` is taken, and nothing is said if there is none. -/
def parseMerged (text artifact : String) : Except ParseError Descriptor := do
  let root ← rootElement text
  match root.name? with
  | some "project" => return ofElement root
  | some "projects" =>
    let selected := (root.elementsNamed "project").find? fun project =>
      project.childText? "artifactId" == some artifact
    return (selected.map ofElement).getD empty
  | name => throw (.notAProject (name.getD ""))

/-- The first declared dependency on an artifact. -/
def dependency? (descriptor : Descriptor) (key : ArtifactKey) : Option DeclaredDependency :=
  descriptor.dependencies.find? fun dependency => dependency.declares key

end Descriptor

end PomLens
