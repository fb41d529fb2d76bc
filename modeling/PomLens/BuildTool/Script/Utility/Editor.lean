/-
This file defines the utility that edits lines as it is told.

Each line is taken into a space of its own, where the commands act on it one after another,
and is written when they are done. A second space keeps text from one line to the next.
-/

import PomLens.BuildTool.Script.Utility.LineEdit
import PomLens.BuildTool.Script.Utility.Options

namespace PomLens.Script.LineEdit

open Utility (complain complainOf input output)

/-! ### State -/

/-- A line with whether its end is there, and the file from which it comes. -/
structure Line where
  text : Raw
  ended : Bool
  file : Raw

/-- The lines of a text. -/
def linesOf (file text : Raw) : List Line :=
  let lines := Raw.lines text
  let complete := text.isEmpty || text.getLast? == some '\n'
  lines.zipIdx.map fun (line, place) =>
    ⟨line, complete || place + 1 < lines.length, file⟩

/-- Where a range that has started ends. -/
inductive RangeEnd
  | line (number : Nat)
  | matching (regex : Option Regex)
  | last

structure Editing where
  /-- The lines that are still to come. -/
  rest : List Line
  number : Nat
  line : Line
  /-- The text that is edited. -/
  space : Raw
  kept : Raw
  /-- The kept text has an end of a line. -/
  keptEnded : Bool
  /-- Something was replaced since the line was read. -/
  replaced : Bool
  /-- The ranges that have started, by the number of the command. -/
  ranges : List (Nat × RangeEnd)
  /-- What is written behind the line, the latest first. -/
  behind : List Raw
  /-- The expression that was used last. -/
  regex : Option Regex
  /-- The last line that was written has no end yet. -/
  owed : Bool
  /-- What is written, the latest first. -/
  pieces : List Raw

/-- The line at hand with or without its end. -/
def Editing.withEnd (editing : Editing) (ended : Bool) : Editing :=
  { editing with line := { editing.line with ended } }

/-- A step of editing. -/
abbrev Edit := StateT Editing Act

/-- How the commands end for a line. -/
inductive Ending
  /-- The line is written, unless it has been already. -/
  | finished
  | dropped
  /-- The commands start again without another line. -/
  | again
  | quit (silent : Bool) (status : Nat)

/-- Writes a text. -/
def put (text : Raw) (ended : Bool) : Edit Unit :=
  modify fun editing =>
    { editing with
      pieces := ((if editing.owed then ['\n'] else []) ++ text ++ (if ended then ['\n'] else [])) ::
        editing.pieces
      owed := !ended }

/-- Writes the text that is edited. -/
def putSpace : Edit Unit := do
  let editing ← get
  put editing.space editing.line.ended

/-- Writes what stands behind the line. -/
def putBehind : Edit Unit := do
  let behind := (← get).behind.reverse
  modify fun editing => { editing with behind := [] }
  for text in behind do
    modify fun editing =>
      { editing with
        pieces := ((if editing.owed then ['\n'] else []) ++ text) :: editing.pieces
        owed := false }

/-- Takes the next line, if there is one. -/
def takeLine? : Edit (Option Line) := do
  match (← get).rest with
  | [] => return none
  | line :: rest =>
    modify fun editing => { editing with rest, line, number := editing.number + 1 }
    return some line

/-! ### Addresses -/

/-- The expression that is meant, which is then the one that was used last. -/
def meant (regex : Option Regex) : Edit (Option Regex) := do
  let used := regex.or (← get).regex
  modify fun editing => { editing with regex := used }
  return used

def isMatching (regex : Option Regex) : Edit Bool := do
  let used ← meant regex
  let text := (← get).space.toArray
  return used.any fun regex => (regex.search? text 0).isSome

/-- The line has an address. -/
def hasAddress (address : Address) : Edit Bool := do
  let editing ← get
  match address with
  | .line number => return editing.number = number
  | .last => return editing.rest.isEmpty
  | .matching regex => isMatching regex
  | .every first step =>
    if step = 0 then return editing.number = first
    else return first ≤ editing.number && (editing.number - first) % step = 0
  | .further _ | .multiple _ => return false

def setRange (place : Nat) (range : Option RangeEnd) : Edit Unit :=
  modify fun editing =>
    let others := editing.ranges.filter fun (other, _) => other ≠ place
    { editing with ranges := (range.toList.map fun range => (place, range)) ++ others }

/-- The command acts on the line. -/
def selects (place : Nat) (command : Command) : Edit Bool := do
  let chosen ←
    match command.first, command.second with
    | none, _ => pure true
    | some first, none => hasAddress first
    | some first, some second => do
      let number := (← get).number
      let isLast := (← get).rest.isEmpty
      let starts ←
        match first with
        | .line 0 => do
          if number = 1 then setRange place (some (endOf number second))
          pure false
        | _ => pure true
      match (← get).ranges.find? fun (other, _) => other = place with
      | some (_, range) =>
        match range with
        | .line stop =>
          if stop ≤ number then setRange place none
          pure (number ≤ stop)
        | .last =>
          if isLast then setRange place none
          pure true
        | .matching regex =>
          if ← isMatching regex then setRange place none
          pure true
      | none =>
        if starts then
          let found ← hasAddress first
          if found then
            let isOver :=
              match endOf number second with
              | .line stop => stop ≤ number
              | .last => isLast
              | .matching _ => false
            if !isOver then setRange place (some (endOf number second))
          pure found
        else pure false
  return chosen != command.negated
where
  endOf (number : Nat) : Address → RangeEnd
    | .line stop => .line stop
    | .last => .last
    | .matching regex => .matching regex
    | .further count => .line (number + count)
    | .multiple step => .line (if step = 0 then number else (number + step - 1) / step * step)
    | .every first _ => .line first

/-! ### Replacing -/

/-- How the case of what comes next is changed: for one character, and from there on. -/
structure Casing where
  next : Option Bool
  all : Option Bool

def Casing.apply (casing : Casing) : Raw → Raw × Casing
  | [] => ([], casing)
  | char :: rest =>
    let change (upper : Option Bool) (char : Char) : Char :=
      match upper with
      | none => char
      | some true => char.toUpper
      | some false => char.toLower
    (change (casing.next.or casing.all) char :: rest.map (change casing.all),
      { casing with next := none })

/-- What a match is replaced by. -/
def replacement (text : Array Char) (start : Nat) (way : Regex.Progress) (parts : List Part) : Raw :=
  go ⟨none, none⟩ parts
where
  go (casing : Casing) : List Part → Raw
    | [] => []
    | .casing letter :: rest =>
      go
        (match letter with
        | 'U' => { casing with all := some true }
        | 'L' => { casing with all := some false }
        | 'u' => { casing with next := some true }
        | 'l' => { casing with next := some false }
        | _ => ⟨none, none⟩)
        rest
    | .text chars :: rest =>
      let (shown, casing) := casing.apply chars
      shown ++ go casing rest
    | .group number :: rest =>
      let (shown, casing) := casing.apply (way.part text start number)
      shown ++ go casing rest

/-- The text with matches replaced, from a place on, and whether there were any. `count` is
the number of matches so far, and `last` where the last one ended. `fuel` bounds their
number. -/
def replaceFrom (substitution : Substitution) (regex : Regex) (text : Array Char)
    (fuel start count : Nat) (last : Option Nat) : Raw × Bool :=
  let rest := text.toList.drop start
  match fuel with
  | 0 => (rest, false)
  | fuel + 1 =>
    match regex.search? text start with
    | none => (rest, false)
    | some (first, way) =>
      let before := (text.toList.take first).drop start
      if way.place = first && last = some first then
        /- Nothing directly behind a match is no match of its own. -/
        match text[first]? with
        | none => (rest, false)
        | some char =>
          let (others, any) :=
            replaceFrom substitution regex text fuel (first + 1) count none
          (before ++ char :: others, any)
      else
        let count := count + 1
        let wanted :=
          count = substitution.number || (substitution.everywhere && substitution.number < count)
        let shown :=
          if wanted then replacement text first way substitution.parts
          else (text.toList.take way.place).drop first
        if wanted && !substitution.everywhere then
          (before ++ shown ++ text.toList.drop way.place, true)
        else
          let (others, any) :=
            if way.place = first then
              match text[first]? with
              | none => ([], false)
              | some char =>
                let (others, any) :=
                  replaceFrom substitution regex text fuel (first + 1) count none
                (char :: others, any)
            else replaceFrom substitution regex text fuel way.place count (some way.place)
          (before ++ shown ++ others, wanted || any)

/-! ### Commands -/

/-- Writes the edited text to a file. -/
def putFile (name : Raw) : Edit Unit := do
  if name = "/dev/stdout".toList then
    modify fun editing =>
      let ending := if editing.line.ended then ['\n'] else []
      { editing with pieces := (editing.space ++ ending) :: editing.pieces }
  else
    let text := (← get).space
    let _ ← output name (text ++ ['\n']) true

/-- A text with its characters in a form that can be seen. -/
def shownText (text : Raw) : Raw :=
  text.flatMap fun char =>
    match char with
    | '\\' => ['\\', '\\']
    | '\n' => ['\\', 'n']
    | '\t' => ['\\', 't']
    | '\r' => ['\\', 'r']
    | _ =>
      if ' ' ≤ char && char ≤ '~' then [char]
      else
        let digits := Nat.toDigits 8 char.toNat
        '\\' :: List.replicate (3 - digits.length) '0' ++ digits

/-- The place of a label. -/
def placeOf? (commands : Array Command) (name : Raw) : Option Nat :=
  if name.isEmpty then some commands.size
  else commands.findIdx? fun command =>
    match command.action with
    | .label other => other = name
    | _ => false

/-- The first line of a text and what follows it, if there are several lines. -/
def firstLine? (text : Raw) : Option (Raw × Raw) :=
  let line := text.takeWhile (· != '\n')
  if line.length < text.length then some (line, text.drop (line.length + 1)) else none

/-- Carries out commands from one on. `fuel` bounds their number. -/
def perform (quiet : Bool) (commands : Array Command) (fuel place : Nat) : Edit Ending := do
  match fuel with
  | 0 => return .finished
  | fuel + 1 =>
    match commands[place]? with
    | none => return .finished
    | some command =>
      let continue_ : Edit Ending := perform quiet commands fuel (place + 1)
      let goTo (name : Raw) : Edit Ending :=
        perform quiet commands fuel ((placeOf? commands name).getD commands.size)
      if !(← selects place command) then
        match command.action with
        | .openGroup stop => perform quiet commands fuel (stop + 1)
        | _ => continue_
      else
        let editing ← get
        match command.action with
        | .openGroup _ | .closeGroup | .label _ => continue_
        | .substitute substitution =>
          match ← meant substitution.regex with
          | none => continue_
          | some regex =>
            let text := editing.space.toArray
            let (space, replaced) :=
              replaceFrom substitution regex text (text.size + 2) 0 0 none
            if replaced then
              modify fun editing => { editing with space, replaced := true }
              if substitution.prints then putSpace
              if let some file := substitution.file then putFile file
            continue_
        | .exchangeChars pairs =>
          modify fun editing =>
            { editing with
              space := editing.space.map fun char => (pairs.lookup char).getD char }
          continue_
        | .append text =>
          modify fun editing => { editing with behind := text :: editing.behind }
          continue_
        | .insert text =>
          if !text.isEmpty then put text.dropLast true
          continue_
        | .change text =>
          let isActive := (← get).ranges.any fun (other, _) => other = place
          if (!isActive || command.negated) && !text.isEmpty then put text.dropLast true
          return .dropped
        | .jump name => goTo name
        | .jumpIf wanted name =>
          modify fun editing => { editing with replaced := false }
          if editing.replaced == wanted then goTo name else continue_
        | .readFile name =>
          match ← input name with
          | .ok text => modify fun editing => { editing with behind := text :: editing.behind }
          | .error _ => modify fun editing => { editing with behind := [] :: editing.behind }
          continue_
        | .writeFile name =>
          putFile name
          continue_
        | .quit silent status => return .quit silent status
        | .plain letter =>
          match letter with
          | 'd' => return .dropped
          | 'D' =>
            match firstLine? editing.space with
            | none => return .dropped
            | some (_, rest) =>
              modify fun editing => { editing with space := rest }
              return .again
          | 'n' =>
            if editing.rest.isEmpty then return .finished
            else
              if !quiet then putSpace
              putBehind
              if let some line ← takeLine? then
                modify fun editing => { editing with space := line.text }
              continue_
          | 'N' =>
            if editing.rest.isEmpty then return .finished
            else
              putBehind
              if let some line ← takeLine? then
                modify fun editing =>
                  { editing with space := editing.space ++ '\n' :: line.text }
              continue_
          | 'p' =>
            putSpace
            continue_
          | 'P' =>
            match firstLine? editing.space with
            | none => putSpace
            | some (line, _) => put line true
            continue_
          | '=' =>
            put (Raw.ofNat editing.number) true
            continue_
          | 'l' =>
            put (shownText editing.space ++ ['$']) true
            continue_
          | 'F' =>
            put editing.line.file true
            continue_
          | 'z' =>
            modify fun editing => { editing with space := [] }
            continue_
          | 'h' =>
            modify fun editing =>
              { editing with kept := editing.space, keptEnded := editing.line.ended }
            continue_
          | 'H' =>
            modify fun editing =>
              { editing with
                kept := editing.kept ++ '\n' :: editing.space
                keptEnded := editing.line.ended }
            continue_
          | 'g' =>
            modify fun editing => { editing.withEnd editing.keptEnded with space := editing.kept }
            continue_
          | 'G' =>
            modify fun editing =>
              { editing.withEnd editing.keptEnded with
                space := editing.space ++ '\n' :: editing.kept }
            continue_
          | 'x' =>
            modify fun editing =>
              { editing.withEnd editing.keptEnded with
                space := editing.kept
                kept := editing.space
                keptEnded := editing.line.ended }
            continue_
          | _ => continue_

/-- The most commands that are carried out for a line. -/
def commandLimit : Nat := 100000

/-- Edits line after line, and gives the status and whether that was told. `fuel` bounds the
number of rounds. -/
def editAll (quiet : Bool) (commands : Array Command) (fuel : Nat) (again : Bool) :
    Edit (Option Nat) := do
  match fuel with
  | 0 => return none
  | fuel + 1 =>
    if !again then
      match ← takeLine? with
      | none => return none
      | some line => modify fun editing => { editing with space := line.text, replaced := false }
    match ← perform quiet commands commandLimit 0 with
    | .finished =>
      if !quiet then putSpace
      putBehind
      editAll quiet commands fuel false
    | .dropped =>
      putBehind
      editAll quiet commands fuel false
    | .again =>
      putBehind
      editAll quiet commands fuel true
    | .quit silent status =>
      if !silent then
        if !quiet then putSpace
        modify fun editing => { editing with behind := [] :: editing.behind }
      putBehind
      return some status

/-! ### The utility -/

/-- How the utility is called. -/
structure Told where
  quiet : Bool
  extended : Bool
  separate : Bool
  /-- Files are changed; what they were before stays under another ending, unless that is
  empty. -/
  inPlace : Option Raw
  /-- The texts of edits. -/
  texts : List Raw
  operands : List Raw

/-- Reads the words of a call. Texts in files are read too. `fuel` bounds the number of steps. -/
def readTold (fuel : Nat) (told : Told) (words : List Raw) :
    Act (Except (String × Nat) Told) := do
  let textOf (file : Raw) : Act (Except (String × Nat) Raw) := do
    match ← input file with
    | .ok text => return .ok (if text.getLast? = some '\n' then text.dropLast else text)
    | .error error =>
      let reason := String.ofList (Act.reason error)
      return .error (s!"couldn't open file {String.ofList file}: {reason}", 4)
  match fuel, words with
  | 0, _ | _, [] => return .ok told
  | fuel + 1, word :: rest =>
    match word with
    | ['-', '-'] => return .ok { told with operands := told.operands ++ rest }
    | '-' :: '-' :: long =>
      let name := String.ofList (long.takeWhile (· != '='))
      let value := long.drop (name.length + 1)
      match name with
      | "quiet" | "silent" => readTold fuel { told with quiet := true } rest
      | "regexp-extended" => readTold fuel { told with extended := true } rest
      | "separate" => readTold fuel { told with separate := true } rest
      | "in-place" => readTold fuel { told with inPlace := some value } rest
      | "expression" => readTold fuel { told with texts := told.texts ++ [value] } rest
      | "file" =>
        match ← textOf value with
        | .ok text => readTold fuel { told with texts := told.texts ++ [text] } rest
        | .error message => return .error message
      | _ => return .error (s!"unrecognized option '--{name}'", 1)
    | '-' :: letter :: more =>
      let others := if more.isEmpty then rest else ('-' :: more) :: rest
      match letter with
      | 'n' => readTold fuel { told with quiet := true } others
      | 'E' | 'r' => readTold fuel { told with extended := true } others
      | 's' => readTold fuel { told with separate := true } others
      | 'u' => readTold fuel told others
      | 'i' => readTold fuel { told with inPlace := some more } rest
      | 'e' | 'f' =>
        let (value, rest) :=
          if more.isEmpty then (rest.head?, rest.tail) else (some more, rest)
        match value with
        | none => return .error (s!"option requires an argument -- '{letter}'", 1)
        | some value =>
          let text ← if letter = 'e' then pure (.ok value) else textOf value
          match text with
          | .ok text => readTold fuel { told with texts := told.texts ++ [text] } rest
          | .error message => return .error message
      | _ => return .error (s!"invalid option -- '{letter}'", 1)
    | _ => readTold fuel { told with operands := told.operands ++ [word] } rest

/-- The name under which a file stays as it was. -/
def backupName (ending file : Raw) : Raw :=
  if ending.contains '*' then
    let last := (file.reverse.takeWhile (· != '/')).reverse
    let before := file.take (file.length - last.length)
    let name := ending.flatMap fun char => if char = '*' then last else [char]
    if name.contains '/' then name else before ++ name
  else file ++ ending

/-- The command means the expression that was used last. -/
def usesLast (command : Command) : Bool :=
  let isOpen (address : Option Address) : Bool :=
    match address with
    | some (.matching none) => true
    | _ => false
  isOpen command.first || isOpen command.second ||
    (match command.action with
    | .substitute substitution => substitution.regex.isNone
    | _ => false)

/-- The command has an expression. -/
def namesRegex (command : Command) : Bool :=
  let names (address : Option Address) : Bool :=
    match address with
    | some (.matching (some _)) => true
    | _ => false
  names command.first || names command.second ||
    (match command.action with
    | .substitute substitution => substitution.regex.isSome
    | _ => false)

/-- What the edits make of some lines, and the status that they tell. -/
def edited (quiet : Bool) (commands : Array Command) (lines : List Line) :
    Act (Raw × Option Nat) := do
  let start : Editing := ⟨lines, 0, ⟨[], true, []⟩, [], [], true, false, [], [], none, false, []⟩
  let (status, editing) ← (editAll quiet commands (100 * (lines.length + 100)) false).run start
  return (editing.pieces.reverse.flatten, status)

/-- Edits lines. -/
def edit : Utility := fun words => do
  let refuse (message : String) (status : Nat) : Act Nat := do
    complain "sed" message
    return status
  match ← readTold (2 * (words.flatten.length + words.length + 1)) ⟨false, false, false, none, [], []⟩ words with
  | .error (message, status) => refuse message status
  | .ok told =>
    let told :=
      if told.texts.isEmpty then
        { told with texts := told.operands.take 1, operands := told.operands.drop 1 }
      else told
    if told.texts.isEmpty then
      Act.printError
        "Usage: sed [OPTION]... \x7bscript-only-if-no-other-script\x7d [input-file]...".toList
      return 1
    let text := Raw.join ['\n'] told.texts
    let quiet := told.quiet || "#n".toList.isPrefixOf text
    match read ⟨told.extended, false, true⟩ text with
    | .error (count, message) => refuse s!"-e expression #1, char {count}: {message}" 1
    | .ok commands =>
      let labels := commands.toList.filterMap fun command =>
        match command.action with
        | .jump name | .jumpIf _ name => some name
        | _ => none
      if commands.any usesLast && !commands.any namesRegex then
        return ← refuse "-e expression #1, char 0: no previous regular expression" 1
      if let some name := labels.find? fun name => (placeOf? commands name).isNone then
        return ← refuse s!"can't find label for jump to `{String.ofList name}'" 4
      for command in commands do
        match command.action with
        | .writeFile file | .substitute ⟨_, _, _, _, _, some file⟩ =>
          let _ ← output file [] false
        | _ => pure ()
      let files := if told.operands.isEmpty then [['-']] else told.operands
      let mut status := 0
      let mut groups := []
      let mut lines := []
      for file in files do
        let isFolder := file != ['-'] && (← Act.entry? file) == some .folder
        if isFolder then
          if told.inPlace.isSome then
            complain "sed" s!"couldn't edit {String.ofList file}: not a regular file"
            status := 4
          else
            complain "sed" s!"read error on {String.ofList file}: Is a directory"
            status := 4
        else
          match ← input file with
          | .error error =>
            complain "sed" s!"can't read {String.ofList file}: {String.ofList (Act.reason error)}"
            status := 2
          | .ok text =>
            groups := groups ++ [(file, text)]
            lines := lines ++ linesOf file text
      let mut told? := none
      match told.inPlace with
      | some ending =>
        for (file, text) in groups do
          if told?.isNone then
            let (result, quits) ← edited quiet commands (linesOf file text)
            if !ending.isEmpty then
              let _ ← output (backupName ending file) text false
            let _ ← output file result false
            told? := quits
      | none =>
        if told.separate then
          for (file, text) in groups do
            if told?.isNone then
              let (result, quits) ← edited quiet commands (linesOf file text)
              Act.print result
              told? := quits
        else
          let (result, quits) ← edited quiet commands lines
          Act.print result
          told? := quits
      return if told? == none || told? == some 0 then status else told?.getD 0

end PomLens.Script.LineEdit
