/-
This file defines the state of a running script and the steps that change it.

A script has variables, arguments and functions, a folder in which it runs, and channels. A
channel leads to a stream: to what can be read, to a file, or to a text that is collected.
Several channels may lead to one stream, so what one command leaves unread the next one
reads.
-/

import PomLens.BuildTool.Script.Command
import PomLens.FileTree

namespace PomLens.Script

/-! ### State -/

/-- What a variable holds. -/
structure Binding where
  /-- There is none in a variable that only has been announced. -/
  value : Option Raw
  /-- Programs that are started see the variable. -/
  exported : Bool
  /-- The variable keeps its value. -/
  fixed : Bool
  deriving Repr

/-- Where bytes come from or go to. -/
inductive Stream
  /-- A text that is still to be read, with the size of the file that it comes from. -/
  | source (rest : Raw) (size : Option Nat)
  /-- A file that is written at its end. -/
  | file (location : FileLocation)
  /-- A text that is collected, in pieces, the latest first. -/
  | collected (pieces : List Raw)
  /-- Nothing can be read and all that is written is lost. -/
  | nothing
  /-- A folder, which can be opened but not be read. -/
  | folder
  deriving Repr

/-- How a script goes on behind a command. -/
inductive Flow
  | running
  /-- The function at hand ends. -/
  | returning
  /-- So many loops end. -/
  | breaking (levels : Nat)
  /-- All but the last of so many loops end, and that one goes on with its next round. -/
  | continuing (levels : Nat)
  deriving DecidableEq, Repr

/-- Why a script stops at once, or the part of it that stands for itself. -/
inductive Halt
  /-- There was an error. A built-in command ends by one without ending the script, unless
  the command is special. -/
  | error
  /-- The script says so. -/
  | exiting
  /-- A signal stops the whole script. -/
  | killed (signal : Nat)
  deriving DecidableEq, Repr

/-- The switches of a script, by their letters. -/
abbrev Switches := List Char

structure Shell where
  bindings : List (String × Binding)
  functions : List (String × Command)
  /-- The name under which the script runs. -/
  name : Raw
  arguments : List Raw
  /-- The folder in which the script runs. -/
  folder : Path
  /-- The status of the last command. -/
  status : Nat
  flow : Flow
  switches : Switches
  streams : Array Stream
  /-- The streams to which channels lead. -/
  channels : List (Nat × Nat)
  files : FileTree
  /-- What is to be run at a signal, by its name. -/
  traps : List (String × Raw)
  /-- Signals that have come and for which something is still to be run. -/
  signals : List Nat
  /-- The bindings that variables had outside the functions that run, innermost first. -/
  locals : List (List (String × Option Binding))
  /-- How many loops run around the command at hand. -/
  loops : Nat
  /-- The line of the command at hand. -/
  line : Nat
  /-- The line to which the script has been read. -/
  linesRead : Nat
  /-- The built-in command at hand, which complaints name. -/
  command : Option Raw
  /-- The status of the last command that ran beside the script. -/
  aside : Option Nat
  /-- How many files without a name of their own were made. -/
  made : Nat
  /-- The number of the argument in which the next option is looked for. -/
  optionIndex : Nat
  /-- How many characters of the argument before it have been read as options, if it has
  more. -/
  optionPlace : Nat
  /-- The status from before what is run at a signal. -/
  before : Option Nat
  /-- The status of the last commands that were run in a word of the command at hand. -/
  captured : Option Nat
  /-- How many processes there are around the script's own. -/
  depth : Nat
  /-- How many commands that stand for themselves are around the command at hand. -/
  apartness : Nat
  /-- The signal that has stopped the script while commands that stand for themselves still
  run. -/
  doom : Option Nat
  /-- Texts that stand for the names of commands. -/
  aliases : List (String × Raw)
  /-- What files that are made may not be used for, as a number. -/
  mask : Nat

/-- A step of a running script. What it did remains when the script stops there. -/
abbrev Act := ExceptT Halt (StateM Shell)

namespace Act

/-- Takes a step, and says whether and why the script stopped there. -/
def attempt {α : Type} (action : Act α) : Act (Except Halt α) :=
  ExceptT.lift action.run

/-- Takes rounds as long as they say that there is another one, up to a number of them that
no script comes to. -/
def repeatWhile (bound : Nat) (round : Act Bool) : Act Unit := do
  match bound with
  | 0 => return
  | bound + 1 => if ← round then repeatWhile bound round

/-! ### Variables -/

/-- The binding of a variable. -/
def binding? (name : String) : Act (Option Binding) := do
  return (← get).bindings.lookup name

/-- The value of a variable. -/
def valueOf? (name : String) : Act (Option Raw) := do
  return (← binding? name).bind Binding.value

/-- Replaces the binding of a variable, or takes it away. -/
def bind (name : String) (binding : Option Binding) : Act Unit :=
  modify fun shell =>
    let others := shell.bindings.filter fun (other, _) => other ≠ name
    { shell with bindings := (binding.toList.map fun binding => (name, binding)) ++ others }

/-- Gives a value to a variable. -/
def assign (name : String) (value : Raw) : Act Unit := do
  let old := (← binding? name).getD ⟨none, false, false⟩
  let exported := old.exported || (← get).switches.contains 'a'
  bind name (some { old with value := some value, exported })
  if name = "OPTIND" then
    modify fun shell =>
      { shell with optionIndex := max 1 ((Raw.nat? value).getD 1), optionPlace := 0 }

/-- Gives the script other arguments, in which options are looked for from the start. -/
def setArguments (arguments : List Raw) : Act Unit :=
  modify fun shell => { shell with arguments, optionIndex := 1, optionPlace := 0 }

/-- The value of a parameter. -/
def parameter? (name : String) : Act (Option Raw) := do
  let shell ← get
  match name with
  | "#" => return some (Raw.ofNat shell.arguments.length)
  | "?" => return some (Raw.ofNat shell.status)
  | "$" => return some ['1']
  | "!" => return shell.aside.map fun _ => ['2']
  | "-" => return some shell.switches
  | "0" => return some shell.name
  | "@" | "*" => return if shell.arguments.isEmpty then none else some (Raw.join [' '] shell.arguments)
  | _ =>
    match name.toNat? with
    | some number => return shell.arguments[number - 1]?
    | none => valueOf? name

def setStatus (status : Nat) : Act Unit :=
  modify fun shell => { shell with status := status % 256 }

def setFlow (flow : Flow) : Act Unit :=
  modify fun shell => { shell with flow }

/-- The script goes on behind the command at hand. -/
def isRunning : Act Bool := do
  return (← get).flow == .running

/-! ### Streams -/

/-- Adds a stream and gives its place. -/
def addStream (stream : Stream) : Act Nat := do
  let place := (← get).streams.size
  modify fun shell => { shell with streams := shell.streams.push stream }
  return place

/-- The stream to which a channel leads. -/
def stream? (channel : Nat) : Act (Option (Nat × Stream)) := do
  let shell ← get
  return (shell.channels.lookup channel).bind fun place =>
    (shell.streams[place]?).map fun stream => (place, stream)

def setStream (place : Nat) (stream : Stream) : Act Unit :=
  modify fun shell => { shell with streams := shell.streams.setIfInBounds place stream }

/-- Lets a channel lead to a stream, or nowhere. -/
def setChannel (channel : Nat) (place : Option Nat) : Act Unit :=
  modify fun shell =>
    let others := shell.channels.filter fun (other, _) => other ≠ channel
    { shell with channels := (place.toList.map fun place => (channel, place)) ++ others }

/-- The content of a file. -/
def contentOf (entry : FileEntry) : Raw :=
  match entry with
  | .folder => []
  | .file content _ => Raw.ofString content
  | .data bytes _ => Raw.ofBytes bytes

/-- A file with some content. -/
def entryOf (content : Raw) (executable : Bool) : FileEntry :=
  match Raw.text? content with
  | some text => .file text executable
  | none => .data (Raw.toBytes content) executable

/-- Puts a file in place of what stands at a location. One that was there may be run just as
before. -/
def putFile (location : FileLocation) (content : Raw) : Act Unit :=
  modify fun shell =>
    let executable :=
      match shell.files.at? location with
      | some (.file _ executable) | some (.data _ executable) => executable
      | _ => false
    { shell with files := shell.files.set location (entryOf content executable) }

/-- Writes to a stream. -/
def writeTo (place : Nat) (text : Raw) : Act Unit := do
  match (← get).streams[place]? with
  | some (.collected pieces) => setStream place (.collected (text :: pieces))
  | some (.file location) =>
    let old := ((← get).files.at? location).map contentOf
    putFile location (old.getD [] ++ text)
  | _ => return

/-- Writes to a channel, and says whether that was possible. -/
def write (channel : Nat) (text : Raw) : Act Bool := do
  match ← stream? channel with
  | none => return false
  | some (place, _) =>
    writeTo place text
    return true

/-- Writes to the standard output. -/
def print (text : Raw) : Act Unit := do
  let _ ← write 1 text

/-- Writes a line for errors. -/
def printError (text : Raw) : Act Unit := do
  let _ ← write 2 (text ++ ['\n'])

/-- All that is still to be read from a stream. -/
def Stream.rest : Stream → Raw
  | .source rest _ => rest
  | _ => []

/-- The size of the file from which the standard input comes. -/
def inputSize? : Act (Option Nat) := do
  match ← stream? 0 with
  | some (_, .source _ size) => return size
  | _ => return none

/-- Reads all that is left on a channel. -/
def readAll (channel : Nat) : Act Raw := do
  match ← stream? channel with
  | some (place, .source rest size) =>
    setStream place (.source [] size)
    return rest
  | _ => return []

/-- Reads a line from the standard input, and says whether its end was there. -/
def readLine : Act (Raw × Bool) := do
  match ← stream? 0 with
  | some (place, .source rest size) =>
    let line := rest.takeWhile (· != '\n')
    setStream place (.source (rest.drop (line.length + 1)) size)
    return (line, line.length < rest.length)
  | _ => return ([], false)

/-- The text that was collected by a stream. -/
def collected (place : Nat) : Act Raw := do
  match (← get).streams[place]? with
  | some (.collected pieces) => return pieces.reverse.flatten
  | _ => return []

/-! ### Complaints -/

/-- Complains in the name of the script. -/
def complain (message : Raw) : Act Unit := do
  let shell ← get
  let command := (shell.command.map fun name => name ++ ": ".toList).getD []
  printError (shell.name ++ ": ".toList ++ Raw.ofNat shell.line ++ ": ".toList ++ command ++ message)

/-- Complains, and stops because of an error. -/
def fail {α : Type} (message : Raw) : Act α := do
  complain message
  setStatus 2
  throw .error

/-! ### Files -/

/-- The path that a name means in the folder of the script. -/
def pathOf (name : Raw) : Act Path := do
  return (← get).folder.join ⟨Raw.toString name⟩

/-- The location of what a name means. -/
def locate (name : Raw) : Act (Except FileError FileLocation) := do
  if name.isEmpty then return .error .notFound
  return (← get).files.resolve (← pathOf name)

/-- The location that a name means, though nothing need be there. -/
def locatePlace (name : Raw) : Act (Except FileError FileLocation) := do
  if name.isEmpty then return .error .notFound
  return (← get).files.place (← pathOf name)

/-- What stands where a name leads. -/
def entry? (name : Raw) : Act (Option FileEntry) := do
  match ← locate name with
  | .error _ => return none
  | .ok location => return (← get).files.at? location

def setEntry (location : FileLocation) (entry : FileEntry) : Act Unit :=
  modify fun shell => { shell with files := shell.files.set location entry }

def removeEntry (location : FileLocation) : Act Unit :=
  modify fun shell => { shell with files := shell.files.remove location }

/-- The short form of an error. -/
def reason (error : FileError) : Raw :=
  ((error.message.splitOn " (os").headD "").toList

/-- The content of a file, or why it cannot be read. -/
def readFile (name : Raw) : Act (Except FileError Raw) := do
  match ← locate name with
  | .error error => return .error error
  | .ok location =>
    match (← get).files.at? location with
    | none => return .error .notFound
    | some .folder => return .error .isAFolder
    | some entry => return .ok (contentOf entry)

end Act

end PomLens.Script
