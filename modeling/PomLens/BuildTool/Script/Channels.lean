/-
This file changes where the channels of a command lead.

The words of all redirections are expanded before the first file is opened. What cannot be
opened is an error of the command, not of the script.
-/

import PomLens.BuildTool.Script.System
import PomLens.BuildTool.Script.Word

namespace PomLens.Script

/-- A redirection whose words have been expanded. -/
inductive Connection
  | readFile (name : Raw)
  | writeFile (append : Bool) (name : Raw)
  | useFile (name : Raw)
  /-- To where another channel leads, or nowhere. -/
  | copy (channel : Option Nat)
  | here (text : Raw)
  deriving Repr

/-- Complains about what is no number of a channel. That is noticed where the script has been
read to. -/
def Act.wrongChannel {α : Type} : Act α := do
  modify fun shell => { shell with line := shell.linesRead }
  fail "Syntax error: Bad fd number".toList

/-- Expands the words of a target. -/
def Target.expand (capture : Capture) : Target → Act Connection
  | .readFile name => return .readFile (← expandText capture name)
  | .writeFile append name => return .writeFile append (← expandText capture name)
  | .useFile name => return .useFile (← expandText capture name)
  | .copy channel => do
    let name ← expandText capture channel
    match name with
    | ['-'] => return .copy none
    | [char] => if char.isDigit then return .copy (some (char.toNat - '0'.toNat)) else Act.wrongChannel
    | _ => Act.wrongChannel
  | .here body => return .here (← expandText capture body)

namespace Act

/-- Why a file cannot be opened, in the words of the shell. -/
def openReason (missing : String) (error : FileError) : Raw :=
  match error with
  | .notFound | .notAFolder => missing.toList
  | _ => reason error

def cannotOpen {α : Type} (name : Raw) (error : FileError) : Act α :=
  fail ("cannot open ".toList ++ name ++ ": ".toList ++ openReason "No such file" error)

def cannotCreate {α : Type} (name : Raw) (error : FileError) : Act α :=
  fail ("cannot create ".toList ++ name ++ ": ".toList ++
    openReason "Directory nonexistent" error)

/-- The stream to which a channel leads. -/
def placeOf (channel : Nat) : Act Nat := do
  match ← stream? channel with
  | some (place, _) => return place
  | none => fail (Raw.ofNat channel ++ ": Bad file descriptor".toList)

/-- Opens a file for reading. -/
def openSource (name : Raw) : Act Nat := do
  match device? name with
  | some .nothing => addStream .nothing
  | some (.channel number) => placeOf number
  | none =>
    match ← readFile name with
    | .ok content => addStream (.source content (some content.length))
    | .error .isAFolder => addStream .folder
    | .error error => cannotOpen name error

/-- Opens a file for writing. -/
def openFile (append : Bool) (name : Raw) : Act Nat := do
  match device? name with
  | some .nothing => addStream .nothing
  | some (.channel number) => placeOf number
  | none =>
    match ← locatePlace name with
    | .error error => cannotCreate name error
    | .ok location =>
      match (← get).files.at? location with
      | some .folder => cannotCreate name .isAFolder
      | entry =>
        if entry.isNone || !append then putFile location []
        addStream (.file location)

/-- Opens a file that is read and written. One that was not there is empty. -/
def openBoth (name : Raw) : Act Nat := do
  match ← locate name with
  | .ok _ => openSource name
  | .error _ =>
    let _ ← openFile true name
    openSource name

/-- Lets a channel lead to where a connection does. -/
def connect (channel : Nat) (connection : Connection) : Act Unit := do
  match connection with
  | .readFile name => setChannel channel (some (← openSource name))
  | .writeFile append name => setChannel channel (some (← openFile append name))
  | .useFile name => setChannel channel (some (← openBoth name))
  | .here text => setChannel channel (some (← addStream (.source text none)))
  | .copy none => setChannel channel none
  | .copy (some other) => setChannel channel (some (← placeOf other))

/-- Takes a step with channels changed, and gives what comes of it. If a channel cannot be
changed, the step is not taken. -/
def withChannels {α : Type} (capture : Capture) (redirections : List Redirection)
    (failed step : Act α) : Act α := do
  let mut connections := []
  for .mk channel target in redirections do
    connections := connections ++ [(channel, ← target.expand capture)]
  let channels := (← get).channels
  let opened ← attempt do
    for (channel, connection) in connections do
      connect channel connection
  let result ←
    match opened with
    | .ok _ => attempt step
    | .error _ =>
      modify fun shell => { shell with channels }
      attempt failed
  modify fun shell => { shell with channels }
  match result with
  | .ok value => return value
  | .error halt => throw halt

end Act

end PomLens.Script
