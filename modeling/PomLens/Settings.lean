/-
This file defines the settings and reads them from a settings file.

Settings come in five sections, and everything has a default. A section is a table, in which
a name that is not a setting is refused, or a list, whose items are the settings in their
order. A setting that is not there keeps its default; one of the wrong kind is refused.
-/

import PomLens.FileTree
import PomLens.Toml.Reader

namespace PomLens

/-! ### Sections -/

/-- Which analyses publish diagnostics. -/
structure DiagnosticsSettings where
  /-- Version conflicts are reported. -/
  conflicts : Bool
  deriving DecidableEq, Repr

/-- Which files are project descriptors. -/
structure DiscoverySettings where
  /-- The glob that the path of a descriptor matches, seen from where the search starts. -/
  pattern : String
  /-- The globs of paths that are left out. -/
  exclude : List String
  deriving DecidableEq, Repr

/-- How the build tool is called. -/
structure BuildSettings where
  /-- The program to run where no wrapper applies. -/
  executable : String
  /-- A wrapper beside a descriptor, or further up, is run instead. -/
  preferWrapper : Bool
  /-- Where artifacts are cached, if not in the usual place. -/
  localRepository : Option Path
  deriving DecidableEq, Repr

/-- How long a refresh waits for further changes. -/
structure DelaySettings where
  /-- The shortest wait, in milliseconds. -/
  floor : Nat
  /-- The wait in terms of the average time that a refresh takes. -/
  growthFactor : Float
  /-- The number of descriptors whose averages are kept. -/
  capacity : Nat
  deriving Repr

/-- How new markup is laid out. -/
structure EditSettings where
  indent : String
  eol : String
  deriving DecidableEq, Repr

structure Settings where
  diagnostics : DiagnosticsSettings
  discovery : DiscoverySettings
  build : BuildSettings
  delay : DelaySettings
  edit : EditSettings
  deriving Repr

def DiagnosticsSettings.standard : DiagnosticsSettings :=
  ⟨true⟩

def DiscoverySettings.standard : DiscoverySettings :=
  ⟨"**/pom.xml", ["**/target/**", "**/node_modules/**", "**/.git/**"]⟩

def BuildSettings.standard : BuildSettings :=
  ⟨"mvn", true, none⟩

def DelaySettings.standard : DelaySettings :=
  ⟨350, 1.3, 32⟩

def EditSettings.standard : EditSettings :=
  ⟨"    ", "\n"⟩

def Settings.standard : Settings :=
  ⟨.standard, .standard, .standard, .standard, .standard⟩

/-! ### Values of the right kind -/

namespace Settings

open Toml (Value Entries)

def text? : Value → Option String
  | .string text => some text
  | _ => none

def truth? : Value → Option Bool
  | .boolean value => some value
  | _ => none

def texts? : Value → Option (List String)
  | .array _ items => items.mapM text?
  | _ => none

/-- A count has 64 bits. -/
def count? : Value → Option Nat
  | .integer (some value) => if 0 ≤ value ∧ value < UInt64.size then some value.toNat else none
  | _ => none

/-- A factor may also be written as an integer of 64 bits. -/
def factor? : Value → Option Float
  | .float value => value
  | .integer (some value) =>
    if 0 ≤ value ∧ value < UInt64.size then some (Float.ofNat value.toNat)
    else if Int64.minValue.toInt ≤ value ∧ value < 0 then some (Float.ofInt value)
    else none
  | _ => none

/-! ### Reading sections -/

/-- A setting of a section: its name and how a value for it is taken up. -/
structure Entry (α : Type) where
  name : String
  take : α → Value → Option α

/-- Reads a section: a table of named settings, or a list of settings in their order, of
which what follows the last setting is ignored. -/
def readSection {α : Type} (settings : List (Entry α)) (standard : α) :
    Value → Option α
  | .table _ entries =>
    entries.foldlM
      (fun taken (name, value) => do
        let setting ← settings.find? fun setting => setting.name == name
        setting.take taken value)
      standard
  | .array _ items =>
    (settings.zip items).foldlM
      (fun taken (setting, value) => setting.take taken value) standard
  | _ => none

def diagnosticsEntries : List (Entry DiagnosticsSettings) :=
  [⟨"conflicts", fun settings value => do
    some { settings with conflicts := ← truth? value }⟩]

def discoveryEntries : List (Entry DiscoverySettings) :=
  [⟨"pattern", fun settings value => do some { settings with pattern := ← text? value }⟩,
    ⟨"exclude", fun settings value => do some { settings with exclude := ← texts? value }⟩]

def buildEntries : List (Entry BuildSettings) :=
  [⟨"executable", fun settings value => do some { settings with executable := ← text? value }⟩,
    ⟨"prefer-wrapper", fun settings value => do
      some { settings with preferWrapper := ← truth? value }⟩,
    ⟨"local-repository", fun settings value => do
      some { settings with localRepository := some ⟨← text? value⟩ }⟩]

def delayEntries : List (Entry DelaySettings) :=
  [⟨"floor-ms", fun settings value => do some { settings with floor := ← count? value }⟩,
    ⟨"growth-factor", fun settings value => do
      some { settings with growthFactor := ← factor? value }⟩,
    ⟨"capacity", fun settings value => do some { settings with capacity := ← count? value }⟩]

def editEntries : List (Entry EditSettings) :=
  [⟨"indent", fun settings value => do some { settings with indent := ← text? value }⟩,
    ⟨"eol", fun settings value => do some { settings with eol := ← text? value }⟩]

/-- The sections by their names. -/
def sections : List (Entry Settings) :=
  [⟨"diagnostics", fun settings value => do
      some { settings with
        diagnostics := ← readSection diagnosticsEntries .standard value }⟩,
    ⟨"discovery", fun settings value => do
      some { settings with discovery := ← readSection discoveryEntries .standard value }⟩,
    ⟨"maven", fun settings value => do
      some { settings with build := ← readSection buildEntries .standard value }⟩,
    ⟨"scheduler", fun settings value => do
      some { settings with delay := ← readSection delayEntries .standard value }⟩,
    ⟨"edit", fun settings value => do
      some { settings with edit := ← readSection editEntries .standard value }⟩]

/-- The settings in a text. There are none where it is malformed or asks for what is no
setting. -/
def parse? (text : String) : Option Settings := do
  let entries ← Toml.parse? text
  readSection sections .standard (.table .header entries)

end Settings

/-! ### Settings files -/

/-- What the program knows about where it runs, its files apart. -/
structure Environment where
  /-- The user's home directory. -/
  home : Path
  /-- Where the user keeps settings, if set. It may be set and empty. -/
  configHome : Option Path
  deriving DecidableEq, Repr

inductive SettingsError
  | unreadable (path : Path) (error : FileError)
  /-- The text, of a file or given directly, is no settings file. -/
  | invalid (path : Option Path)
  deriving DecidableEq, Repr

def SettingsError.message : SettingsError → String
  | .unreadable path error => s!"I/O error reading {path.text}: {error.message}"
  | .invalid none => "invalid settings"
  | .invalid (some path) => s!"invalid settings in {path.text}"

namespace Settings

/-- The settings in a text that is not from a file. -/
def parse (text : String) : Except SettingsError Settings :=
  match parse? text with
  | none => throw (.invalid none)
  | some settings => return settings

/-- Reads a settings file. -/
def load (files : FileTree) (path : Path) : Except SettingsError Settings :=
  match files.read path with
  | .error error => throw (.unreadable path error)
  | .ok text =>
    match parse? text with
    | none => throw (.invalid (some path))
    | some settings => return settings

/-- The name of the settings file of a workspace. -/
def workspaceFileName : String := "pomsense.toml"

/-- The settings file of a user. -/
def userFile (environment : Environment) : Path :=
  environment.configHome.getD (environment.home / ".config") / "pomsense" / "config.toml"

/-- The settings of a workspace: those in its own file, else those of the user, else the
defaults. A file that is there must be readable. -/
def discover (environment : Environment) (files : FileTree) (workspace : Path) :
    Except SettingsError Settings :=
  match [workspace / workspaceFileName, userFile environment].find? files.isFile with
  | none => return .standard
  | some path => load files path

end Settings

end PomLens
