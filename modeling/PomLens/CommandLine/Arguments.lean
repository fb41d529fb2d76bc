/-
This file reads the arguments of the program.

Arguments are read from the left. The first that is neither an option nor an option's value
names the command, and what follows belongs to it; the common options may stand on either
side. The value of an option or a positional argument is looked at only when the next one
begins, so an argument that is not known at all is reported before a bad value right in
front of it.
-/

import PomLens.Artifact
import PomLens.Path

namespace PomLens.CommandLine

/-! ### What is asked for -/

/-- A command with its own arguments. -/
inductive Request
  /-- Shows the tree of dependencies. -/
  | tree (pom : Path)
  /-- Lists the conflicts. -/
  | check (pom : Path)
  /-- Pins an artifact to a version. -/
  | resolve (pom : Path) (artifact : ArtifactKey) (version : String) (write : Bool)
  /-- Excludes an artifact. -/
  | exclude (pom : Path) (artifact : ArtifactKey) (write : Bool)
  /-- Lists the projects of a folder. -/
  | projects (folder : Path)
  deriving DecidableEq, Repr

/-- The folder whose settings apply: the one that is searched, or that of the descriptor. -/
def Request.workspaceRoot : Request → Path
  | .projects folder => folder
  | .tree pom | .check pom | .resolve pom .. | .exclude pom .. =>
    (pom.parent?.filter fun folder => folder.text ≠ "").getD ⟨"."⟩

/-- Everything the arguments say. -/
structure Invocation where
  request : Request
  /-- The settings file to use. -/
  config : Option Path
  /-- A saved report to read the tree from. -/
  report : Option Path
  verbose : Bool
  deriving DecidableEq, Repr

/-- Why the arguments ask for no command. -/
inductive Refusal
  /-- There are none. -/
  | nothing
  | missingCommand
  | unknownCommand
  | missingArgument
  | unknownArgument
  /-- An option without its value, or an empty path. -/
  | missingValue
  /-- A text that is no artifact. -/
  | malformedArtifact
  /-- A value for an option that takes none. -/
  | unexpectedValue
  /-- An option that was given before. -/
  | repeated
  /-- The arguments ask how the program is used. -/
  | helpAsked
  /-- The arguments ask for the version of the program. -/
  | versionAsked
  deriving DecidableEq, Repr

/-! ### Commands and their forms -/

/-- The kinds of positional arguments. -/
inductive Kind
  | path
  | artifact
  | text
  deriving DecidableEq, Repr

/-- The arguments that a command takes. -/
structure Form where
  name : String
  positionals : List Kind
  /-- How many of the positional arguments may not be left out. -/
  required : Nat
  /-- The command may write what it changes. -/
  canWrite : Bool
  deriving DecidableEq, Repr

/-- The forms of all commands. -/
def forms : List Form :=
  [⟨"tree", [.path], 1, false⟩, ⟨"check", [.path], 1, false⟩,
    ⟨"resolve", [.path, .artifact, .text], 3, true⟩,
    ⟨"exclude", [.path, .artifact], 2, true⟩, ⟨"projects", [.path], 0, false⟩]

/-- The name of the command that explains the others. -/
def helpName : String := "help"

/-! ### Reading one side of the command -/

/-- The options with a value. -/
inductive OptionName
  | config
  | report
  deriving DecidableEq, Repr

/-- The options without a value. -/
inductive FlagName
  | verbose
  | write
  deriving DecidableEq, Repr

/-- An argument that has been read but not been looked at. -/
inductive Pending
  /-- An option, with its value once that has come. -/
  | option (name : OptionName) (value : Option String)
  | positional (kind : Kind) (value : String)
  deriving DecidableEq, Repr

/-- What has been read on one side of the command. -/
structure Progress where
  options : List (OptionName × String)
  flags : List FlagName
  positionals : List String
  pending : Option Pending
  /-- Two dashes have come, so that nothing more is an option. -/
  optionsEnded : Bool
  deriving DecidableEq, Repr

namespace Progress

/-- Nothing has been read. -/
def start : Progress :=
  ⟨[], [], [], none, false⟩

/-- Takes up the value of an option. -/
def takeOption (progress : Progress) (name : OptionName) (value : String) :
    Except Refusal Progress :=
  if (progress.options.lookup name).isSome then throw .repeated
  else if value = "" then throw .missingValue
  else return { progress with options := (name, value) :: progress.options }

/-- Takes up a positional argument. -/
def takePositional (progress : Progress) (kind : Kind) (value : String) :
    Except Refusal Progress := do
  match kind with
  | .path => if value = "" then throw .missingValue
  | .artifact =>
    if let .error _ := ArtifactKey.parse value then throw .malformedArtifact
  | .text => pure ()
  return { progress with positionals := progress.positionals ++ [value] }

/-- Looks at the argument that has been read. -/
def settle (progress : Progress) : Except Refusal Progress :=
  let settled := { progress with pending := none }
  match progress.pending with
  | none => return settled
  | some (.option _ none) => throw .missingValue
  | some (.option name (some value)) => settled.takeOption name value
  | some (.positional kind value) => settled.takePositional kind value

/-- An option waits for its value. -/
def awaitsValue (progress : Progress) : Bool :=
  match progress.pending with
  | some (.option _ none) => true
  | _ => false

/-- Reads an option without a value. -/
def readFlag (progress : Progress) (name : FlagName) : Except Refusal Progress := do
  let settled ← progress.settle
  if name ∈ settled.flags then throw .repeated
  return { settled with flags := name :: settled.flags }

/-- Asks for something to be shown, which wins over all that follows. -/
def readShow (progress : Progress) (shown : Refusal) : Except Refusal Progress := do
  let _ ← progress.settle
  throw shown

/-- Reads an option that is spelled out, without its dashes. Without a command, the version
may be asked for. -/
def readLong (form : Option Form) (progress : Progress) (text : List Char) :
    Except Refusal Progress :=
  let (name, value) :=
    match Text.splitOnce? (· == '=') text with
    | none => (String.ofList text, none)
    | some (name, value) => (String.ofList name, some (String.ofList value))
  let valued (name : OptionName) : Except Refusal Progress := do
    let settled ← progress.settle
    match value with
    | some value => settled.takeOption name value
    | none => return { settled with pending := some (.option name none) }
  let bare (read : Except Refusal Progress) : Except Refusal Progress :=
    if value.isSome then throw .unexpectedValue else read
  match name with
  | "config" => valued .config
  | "report" => valued .report
  | "verbose" => bare (progress.readFlag .verbose)
  | "help" => bare (progress.readShow .helpAsked)
  | "write" =>
    if form.any Form.canWrite then bare (progress.readFlag .write) else throw .unknownArgument
  | "version" =>
    if form.isNone then bare (progress.readShow .versionAsked) else throw .unknownArgument
  | _ => throw .unknownArgument

/-- Reads options that are one letter each, without their dash. -/
def readShort (form : Option Form) (progress : Progress) (letters : List Char) :
    Except Refusal Progress :=
  letters.foldlM
    (fun (progress : Progress) letter =>
      match letter with
      | 'v' => progress.readFlag .verbose
      | 'h' => progress.readShow .helpAsked
      | 'V' => if form.isNone then progress.readShow .versionAsked else throw .unknownArgument
      | _ => throw .unknownArgument)
    progress

/-- The kind of the next positional argument, if the command takes one more. -/
def nextKind? (form : Option Form) (progress : Progress) : Option Kind :=
  let waiting :=
    match progress.pending with
    | some (.positional ..) => 1
    | _ => 0
  form >>= fun form => form.positionals[progress.positionals.length + waiting]?

/-- Reads a positional argument. Without a command there are none, and what is not the name
of a command is reported as such. -/
def readPositional (form : Option Form) (progress : Progress) (argument : String) :
    Except Refusal Progress := do
  match progress.nextKind? form with
  | some kind =>
    let settled ← progress.settle
    return { settled with pending := some (.positional kind argument) }
  | none =>
    let isCommand := argument = helpName || forms.any fun form => form.name == argument
    if form.isSome || (progress.optionsEnded && isCommand) then throw .unknownArgument
    else throw .unknownCommand

/-- Reads an argument. -/
def read (form : Option Form) (progress : Progress) (argument : String) :
    Except Refusal Progress :=
  if progress.optionsEnded then progress.readPositional form argument
  else
    match argument.toList with
    | ['-', '-'] => return { progress with optionsEnded := true }
    | '-' :: '-' :: text => progress.readLong form text
    | '-' :: letter :: letters => progress.readShort form (letter :: letters)
    | _ =>
      match progress.pending with
      | some (.option name none) =>
        return { progress with pending := some (.option name (some argument)) }
      | _ => progress.readPositional form argument

end Progress

/-! ### Reading all arguments -/

/-- The request that settled arguments make. -/
def requestOf? (form : Form) (progress : Progress) : Option Request :=
  let write := progress.flags.contains .write
  let key? (text : String) : Option ArtifactKey := (ArtifactKey.parse text).toOption
  match form.name, progress.positionals with
  | "tree", [pom] => some (.tree ⟨pom⟩)
  | "check", [pom] => some (.check ⟨pom⟩)
  | "resolve", [pom, artifact, version] => do
    some (.resolve ⟨pom⟩ (← key? artifact) version write)
  | "exclude", [pom, artifact] => do some (.exclude ⟨pom⟩ (← key? artifact) write)
  | "projects", [folder] => some (.projects ⟨folder⟩)
  | "projects", [] => some (.projects ⟨"."⟩)
  | _, _ => none

/-- Reads the arguments behind the name of a command. -/
def readCommand (form : Form) (arguments : List String) :
    Except Refusal (Request × Progress) := do
  let read ← arguments.foldlM (Progress.read (some form)) .start
  let settled ← read.settle
  match requestOf? form settled with
  | none => throw .missingArgument
  | some request => return (request, settled)

/-- Reads the arguments behind the command that explains the others: the name of one. -/
def readHelp (arguments : List String) : Refusal :=
  match arguments with
  | [] => .helpAsked
  | [name] =>
    if name = helpName || forms.any fun form => form.name == name then .helpAsked
    else .unknownCommand
  | _ => .unknownCommand

/-- What both sides of a command say together. Behind the command an option counts more. -/
def combine (before behind : Progress) (request : Request) : Invocation :=
  let option (name : OptionName) : Option Path :=
    (behind.options.lookup name <|> before.options.lookup name).map Path.mk
  ⟨request, option .config, option .report, (before.flags ++ behind.flags).contains .verbose⟩

/-- Reads the arguments from the first that has not been read. -/
def readFrom (progress : Progress) : List String → Except Refusal Invocation
  | [] => do
    let settled ← progress.settle
    if settled.options.isEmpty && settled.flags.isEmpty then throw .nothing
    else throw .missingCommand
  | argument :: rest => do
    let named := !progress.optionsEnded && !progress.awaitsValue
    match if named then forms.find? fun form => form.name == argument else none with
    | some form =>
      let (request, behind) ← readCommand form rest
      return combine (← progress.settle) behind request
    | none =>
      if named && argument = helpName then throw (readHelp rest)
      else readFrom (← progress.read none argument) rest

/-- Reads all arguments. -/
def parse (arguments : List String) : Except Refusal Invocation :=
  readFrom .start arguments

end PomLens.CommandLine
