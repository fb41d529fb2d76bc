/-
This file defines utilities that work on files and folders and on their names.
-/

import PomLens.BuildTool.Script.Pattern
import PomLens.BuildTool.Script.Utility.Lines

namespace PomLens.Script.Utility

/-! ### Names -/

/-- A text without the slashes at its end. -/
def withoutSlashes (name : Raw) : Raw :=
  Text.dropEndWhile (· == '/') name

/-- The last step of a name, without an ending if it has more than that. -/
def lastStep (name suffix : Raw) : Raw :=
  let trimmed := withoutSlashes name
  if trimmed.isEmpty then if name.isEmpty then [] else ['/']
  else
    let step := (trimmed.reverse.takeWhile (· != '/')).reverse
    match Text.beforeSuffix? suffix step with
    | some shorter => if shorter.isEmpty then step else shorter
    | none => step

/-- A name without its last step. -/
def folderOf (name : Raw) : Raw :=
  let trimmed := withoutSlashes name
  if trimmed.isEmpty then if name.isEmpty then ['.'] else ['/']
  else
    let before := (trimmed.reverse.dropWhile (· != '/')).reverse
    if before.isEmpty then ['.']
    else if (withoutSlashes before).isEmpty then ['/'] else withoutSlashes before

/-- Complains that an operand is missing. -/
def missingOperand (name : String) : Act Nat := do
  complain name s!"missing operand\nTry '{name} --help' for more information."
  return 1

/-- Writes the last steps of names. -/
def basename : Utility :=
  withManual ⟨"basename", "az", "s", [("suffix", 's'), ("multiple", 'a')], 1⟩ fun call => do
    let several := call.has 'a' || call.has 's'
    let suffix := (call.value? 's').getD []
    match several, call.operands with
    | _, [] => missingOperand "basename"
    | false, [name] =>
      Act.print (lastStep name [] ++ ['\n'])
      return 0
    | false, [name, suffix] =>
      Act.print (lastStep name suffix ++ ['\n'])
      return 0
    | false, _ :: _ :: extra :: _ =>
      complain "basename"
        s!"extra operand '{String.ofList extra}'\nTry 'basename --help' for more information."
      return 1
    | true, names =>
      for name in names do
        Act.print (lastStep name suffix ++ ['\n'])
      return 0

/-- Writes names without their last steps. -/
def dirname : Utility :=
  withManual ⟨"dirname", "z", "", [], 1⟩ fun call => do
    if call.operands.isEmpty then missingOperand "dirname"
    else
      for name in call.operands do
        Act.print (folderOf name ++ ['\n'])
      return 0

/-- The name of a location. -/
def nameOf (location : FileLocation) : Raw :=
  '/' :: Raw.join ['/'] (location.map Raw.ofString)

/-- Writes the locations to which names lead. -/
def realpath (name : String) : Utility :=
  withManual ⟨name, "femnqsz", "", [("canonicalize", 'f')], 1⟩ fun call => do
    let mut complete := true
    for file in call.operands do
      if name = "readlink" && !(call.has 'f' || call.has 'e' || call.has 'm') then complete := false
      else
        let found ← if call.has 'e' then Act.locate file else Act.locatePlace file
        match found with
        | .ok location => Act.print (nameOf location ++ ['\n'])
        | .error error =>
          if call.has 'm' then
            Act.print (Raw.ofString (← Act.pathOf file).normalize.text ++ ['\n'])
          else
            if name = "realpath" then complainOf name file (Act.reason error)
            complete := false
    if call.operands.isEmpty then missingOperand name else return statusOf complete

/-! ### Folders -/

/-- Complains that something cannot be done with a file. -/
def cannot (name action : String) (file : Raw) (error : FileError) : Act Unit :=
  complainOf name (action.toList ++ " '".toList ++ file ++ "'".toList) (Act.reason error)

/-- Complains and gives the status of a failure. -/
def refuse (name message : String) : Act Nat := do
  complain name message
  return 1

/-- Makes a folder and gives those that were made. With `parents`, folders on the way are made
and one that is there is fine. `fuel` bounds the number of steps. -/
def makeFolder (fuel : Nat) (parents : Bool) (name : Raw) :
    Act (Except (Raw × FileError) (List Raw)) := do
  match fuel with
  | 0 => return .error (name, .notFound)
  | fuel + 1 =>
    let trimmed := if (withoutSlashes name).isEmpty then name else withoutSlashes name
    match ← Act.entry? trimmed with
    | some .folder => return .ok []
    | some _ => return .error (trimmed, .notAFolder)
    | none =>
      let before := folderOf trimmed
      let above ← if parents && before != trimmed then makeFolder fuel true before
        else pure (.ok [])
      match above, ← Act.locatePlace trimmed with
      | .error fault, _ => return .error fault
      | _, .error error => return .error (trimmed, error)
      | .ok made, .ok location =>
        Act.setEntry location .folder
        return .ok (made ++ [trimmed])

/-- Makes folders. -/
def mkdir : Utility :=
  withManual ⟨"mkdir", "pv", "m", [("parents", 'p'), ("mode", 'm'), ("verbose", 'v')], 1⟩ fun call => do
    if call.operands.isEmpty then missingOperand "mkdir"
    else
      let mut complete := true
      for folder in call.operands do
        let there ← Act.entry? folder
        if there.isSome && (!call.has 'p' || there != some .folder) then
          complainOf "mkdir" ("cannot create directory '".toList ++ folder ++ "'".toList)
            "File exists".toList
          complete := false
        else
          match ← makeFolder (folder.length + 2) (call.has 'p') folder with
          | .ok made =>
            if call.has 'v' then
              for name in made do
                Act.print ("mkdir: created directory '".toList ++ name ++ "'\n".toList)
          | .error (name, error) =>
            cannot "mkdir" "cannot create directory" name error
            complete := false
      return statusOf complete

/-- Removes a folder that holds nothing, and says whether that was possible. -/
def removeFolder (action : String) (folder : Raw) : Act Bool := do
  match ← Act.locate folder with
  | .error error =>
    cannot "rmdir" action folder error
    return false
  | .ok location =>
    let files := (← get).files
    if files.at? location != some .folder then
      cannot "rmdir" action folder .notAFolder
      return false
    else if !(files.namesIn location).isEmpty then
      complainOf "rmdir" (action.toList ++ " '".toList ++ folder ++ "'".toList)
        "Directory not empty".toList
      return false
    else
      Act.removeEntry location
      return true

/-- The folders on the way to a name, the nearest one first. `fuel` bounds their number. -/
def foldersAbove (fuel : Nat) (name : Raw) : List Raw :=
  match fuel with
  | 0 => []
  | fuel + 1 =>
    let before := folderOf name
    if before = ['.'] || before = ['/'] then [] else before :: foldersAbove fuel before

/-- Removes folders that hold nothing. -/
def rmdir : Utility :=
  withManual ⟨"rmdir", "pv", "", [("parents", 'p'), ("verbose", 'v')], 1⟩ fun call => do
    if call.operands.isEmpty then missingOperand "rmdir"
    else
      let mut complete := true
      for folder in call.operands do
        let mut goesOn ← removeFolder "failed to remove" folder
        complete := complete && goesOn
        for above in if call.has 'p' then foldersAbove folder.length folder else [] do
          if goesOn then
            goesOn ← removeFolder "failed to remove directory" above
            complete := complete && goesOn
      return statusOf complete

/-! ### Files -/

/-- Makes files that are not there. -/
def touch : Utility :=
  withManual ⟨"touch", "acmf", "drt", [("no-create", 'c')], 1⟩ fun call => do
    if call.operands.isEmpty then
      refuse "touch" "missing file operand\nTry 'touch --help' for more information."
    else
      let mut complete := true
      for file in call.operands do
        match ← Act.locatePlace file with
        | .error error =>
          cannot "touch" "cannot touch" file error
          complete := false
        | .ok location =>
          if ((← get).files.at? location).isNone && !call.has 'c' then Act.putFile location []
      return statusOf complete

/-- The names of all that stands at and below a location that has a name, each folder behind
what is in it, and whether it is a folder. -/
def contents (name : Raw) (location : FileLocation) : Act (List (Raw × Bool)) := do
  let below := (← get).files.entries.filter fun (other, _) => location.isPrefixOf other
  let named := below.map fun (other, entry) =>
    (withoutSlashes name ++ (other.drop location.length).flatMap fun step => '/' :: Raw.ofString step,
      entry == .folder)
  return named.mergeSort fun left right => Raw.le right.1 left.1

/-- Removes a file or, if asked to, a folder. Says whether that was possible. -/
def removeOne (call : Call) (file : Raw) : Act Bool := do
  let deep := call.has 'r' || call.has 'R'
  match ← Act.locate file with
  | .error error =>
    if call.has 'f' && (error = .notFound || error = .notAFolder) then return true
    else
      cannot "rm" "cannot remove" file error
      return false
  | .ok location =>
    let isFolder := (← get).files.at? location = some .folder
    let filled := !((← get).files.namesIn location).isEmpty
    let step := lastStep file []
    if isFolder && !deep && !call.has 'd' then
      cannot "rm" "cannot remove" file .isAFolder
      return false
    else if isFolder && (step = ['.'] || step = ['.', '.']) then
      complain "rm" s!"refusing to remove '.' or '..' directory: skipping '{String.ofList file}'"
      return false
    else if isFolder && !deep && filled then
      complainOf "rm" ("cannot remove '".toList ++ file ++ "'".toList) "Directory not empty".toList
      return false
    else
      if call.has 'v' then
        for (name, folder) in ← contents file location do
          let kind := if folder then "removed directory '" else "removed '"
          Act.print (kind.toList ++ name ++ "'\n".toList)
      Act.removeEntry location
      return true

/-- Removes files and, if asked to, folders. -/
def rm : Utility :=
  withManual ⟨"rm", "rRfidvI", "",
    [("recursive", 'r'), ("force", 'f'), ("dir", 'd'), ("verbose", 'v')], 1⟩ fun call => do
    if call.operands.isEmpty && !call.has 'f' then missingOperand "rm"
    else
      let mut complete := true
      for file in call.operands do
        complete := (← removeOne call file) && complete
      return statusOf complete

/-- How files get to another place. -/
structure Transfer where
  /-- The name of the utility. -/
  name : String
  /-- They leave their place. -/
  moving : Bool
  /-- Folders go with all that is in them. -/
  deep : Bool
  /-- Each step is written down. -/
  told : Bool

namespace Transfer

/-- The complaint about a place that nothing can be put at. -/
def blocked (transfer : Transfer) (isFolder : Bool) (file target : Raw) (error : FileError) :
    Act Unit :=
  if transfer.moving then
    complainOf transfer.name
      ("cannot move '".toList ++ file ++ "' to '".toList ++ target ++ "'".toList) (Act.reason error)
  else
    cannot transfer.name
      (if isFolder then "cannot create directory" else "cannot create regular file") target error

/-- Why what stands at one location cannot replace what stands at another one, if so. -/
def conflict? (transfer : Transfer) (files : FileTree) (source place : FileLocation)
    (file target : String) : Option String :=
  let isFolder := files.at? source = some .folder
  if place = source then some s!"'{file}' and '{target}' are the same file"
  else if isFolder && source.isPrefixOf place then
    some (if transfer.moving then
        s!"cannot move '{file}' to a subdirectory of itself, '{target}'"
      else s!"cannot copy a directory, '{file}', into itself, '{target}'")
  else
    match files.at? place with
    | none => none
    | some .folder =>
      if !isFolder then some s!"cannot overwrite directory '{target}' with non-directory"
      else if transfer.moving && !(files.namesIn place).isEmpty then
        some s!"cannot overwrite '{target}': Directory not empty"
      else none
    | some _ =>
      if isFolder then some s!"cannot overwrite non-directory '{target}' with directory '{file}'"
      else none

/-- Puts what stands at a location, with all below it, at another one. A file that is there
may be run just as before. -/
def place (transfer : Transfer) (source target : FileLocation) : Act Unit := do
  let entries := (← get).files.entries.filter fun (location, _) => source.isPrefixOf location
  if transfer.moving then
    Act.removeEntry source
    Act.removeEntry target
  for (location, entry) in entries.reverse do
    let place := target ++ location.drop source.length
    match entry with
    | .folder => if (← get).files.at? place != some .folder then Act.setEntry place .folder
    | _ =>
      if transfer.moving || ((← get).files.at? place).isNone then Act.setEntry place entry
      else Act.putFile place (Act.contentOf entry)

/-- Writes down what came to which place. -/
def tell (transfer : Transfer) (source : FileLocation) (file target : Raw) : Act Unit := do
  let line (word : String) (file target : Raw) : Act Unit :=
    Act.print (word.toList ++ "'".toList ++ file ++ "' -> '".toList ++ target ++ "'\n".toList)
  if transfer.moving then line "renamed " file target
  else
    for (name, _) in (← contents file source).reverse do
      line "" name (target ++ name.drop (withoutSlashes file).length)

/-- Copies or moves one file or folder to a place, and says whether that was possible. -/
def one (transfer : Transfer) (file target : Raw) : Act Bool := do
  if (device? file).isSome || (device? target).isSome then
    match ← input file with
    | .error error =>
      cannot transfer.name "cannot stat" file error
      return false
    | .ok content =>
      match ← output target content false with
      | none => return true
      | some error =>
        transfer.blocked false file target error
        return false
  else
    match ← Act.locate file with
    | .error error =>
      cannot transfer.name "cannot stat" file error
      return false
    | .ok source =>
      let isFolder := (← get).files.at? source = some .folder
      if isFolder && !transfer.deep then
        complain transfer.name s!"-r not specified; omitting directory '{String.ofList file}'"
        return false
      else
        let folderName := if isFolder then withoutSlashes target else target
        match ← Act.locatePlace (if folderName.isEmpty then target else folderName) with
        | .error error =>
          transfer.blocked isFolder file target error
          return false
        | .ok place =>
          let files := (← get).files
          match transfer.conflict? files source place (String.ofList file) (String.ofList target) with
          | some message =>
            complain transfer.name message
            return false
          | none =>
            if transfer.told then transfer.tell source file target
            transfer.place source place
            return true

/-- Copies or moves files to a place or into a folder. -/
def run (transfer : Transfer) (call : Call) : Act Nat := do
  let name := transfer.name
  let (files, folder) :=
    match call.value? 't' with
    | some folder => (call.operands, some folder)
    | none => (call.operands.dropLast, call.operands.getLast?)
  match files, folder with
  | _, none => refuse name s!"missing file operand\nTry '{name} --help' for more information."
  | [], some file =>
    refuse name s!"missing destination file operand after '{String.ofList file}'\nTry '{name} --help' for more information."
  | files, some folder =>
    let there ← Act.entry? folder
    let inside := there == some .folder && !call.has 'T'
    if call.has 'T' && files.length > 1 then
      let extra := String.ofList folder
      refuse name s!"extra operand '{extra}'\nTry '{name} --help' for more information."
    else if !inside && (files.length > 1 || call.has 't') then
      let reason := if there.isSome then "Not a directory" else "No such file or directory"
      refuse name s!"target '{String.ofList folder}': {reason}"
    else
      let mut complete := true
      for file in files do
        let target :=
          if inside then withoutSlashes folder ++ '/' :: lastStep file [] else folder
        if call.has 'n' && (← Act.entry? target).isSome then pure ()
        else complete := (← transfer.one file target) && complete
      return statusOf complete

end Transfer

/-- Copies files. -/
def cp : Utility :=
  withManual ⟨"cp", "rRapfiLPHdvnTul", "t",
    [("recursive", 'r'), ("archive", 'a'), ("force", 'f'), ("no-clobber", 'n'), ("verbose", 'v'),
      ("target-directory", 't'), ("no-target-directory", 'T'), ("preserve", 'p')], 1⟩ fun call =>
    Transfer.run ⟨"cp", false, call.has 'r' || call.has 'R' || call.has 'a', call.has 'v'⟩ call

/-- Moves files. -/
def mv : Utility :=
  withManual ⟨"mv", "fivnTu", "t",
    [("force", 'f'), ("no-clobber", 'n'), ("verbose", 'v'), ("target-directory", 't'),
      ("no-target-directory", 'T')], 1⟩ fun call =>
    Transfer.run ⟨"mv", true, true, call.has 'v'⟩ call

/-- Makes a file stand at a second place. A link is as good as a copy here. -/
def ln : Utility :=
  withManual ⟨"ln", "sfnvrTi", "t", [("symbolic", 's'), ("force", 'f')], 1⟩ fun call => do
    match call.operands with
    | [file, target] =>
      let inside := (← Act.entry? target) == some .folder
      let target := if inside then withoutSlashes target ++ '/' :: lastStep file [] else target
      let kind := if call.has 's' then "symbolic" else "hard"
      if (← Act.entry? target).isSome && !call.has 'f' then
        complainOf "ln" (s!"failed to create {kind} link '".toList ++ target ++ "'".toList)
          "File exists".toList
        return 1
      else return statusOf (← link.one file target)
    | [file] => return statusOf (← link.one file (lastStep file []))
    | _ => refuse "ln" "missing file operand\nTry 'ln --help' for more information."
where
  link : Transfer := ⟨"ln", false, true, false⟩

/-- The way in which a mode changes whether a file may be run, if it is one. -/
def modeChange? (mode : Raw) (before : Bool) : Option Bool :=
  if mode.isEmpty then none
  else if mode.all fun char => '0' ≤ char && char ≤ '7' then
    some (mode.any fun char => (char.toNat - '0'.toNat) % 2 = 1)
  else
    (Text.splitOn (· == ',') mode).foldlM
      (fun now part =>
        let rest := part.dropWhile fun char => "ugoa".toList.contains char
        match rest with
        | '+' :: letters =>
          if letters.all fun char => "rwxXst".toList.contains char then
            some (now || letters.contains 'x')
          else none
        | '-' :: letters =>
          if letters.all fun char => "rwxXst".toList.contains char then
            some (now && !letters.contains 'x')
          else none
        | '=' :: letters => some (letters.contains 'x')
        | _ => none)
      before

/-- Changes whether the files at and below a location may be run. -/
def changeMode (mode : Raw) (location : FileLocation) : Act Unit := do
  for (place, entry) in (← get).files.entries do
    if location.isPrefixOf place then
      match entry with
      | .folder => pure ()
      | .file content before =>
        Act.setEntry place (.file content ((modeChange? mode before).getD before))
      | .data bytes before =>
        Act.setEntry place (.data bytes ((modeChange? mode before).getD before))

/-- Changes whether files may be run. -/
def chmod : Utility := fun words => do
  let isDeep := words.contains "-R".toList
  let words := words.filter fun word => word != "-R".toList && word != "-f".toList && word != "-v".toList
  match words with
  | [] => missingOperand "chmod"
  | [mode] =>
    refuse "chmod" s!"missing operand after '{String.ofList mode}'\nTry 'chmod --help' for more information."
  | mode :: files =>
    if (modeChange? mode false).isNone then
      refuse "chmod" s!"invalid mode: '{String.ofList mode}'\nTry 'chmod --help' for more information."
    else
      let mut complete := true
      for file in files do
        match ← Act.locate file with
        | .error error =>
          cannot "chmod" "cannot access" file error
          complete := false
        | .ok location =>
          if isDeep || (← get).files.at? location != some .folder then changeMode mode location
      return statusOf complete

/-- Makes a file or a folder with a name that nothing else has, and writes the name. -/
def mktemp : Utility :=
  withManual ⟨"mktemp", "duqt", "p", [("directory", 'd'), ("dry-run", 'u'), ("tmpdir", 'p')], 1⟩ fun call => do
    let number := (← get).made
    modify fun shell => { shell with made := number + 1 }
    let digits := Raw.ofNat (1000000000 + number)
    let filled (pattern : Raw) : Raw :=
      let marks := (pattern.reverse.takeWhile (· == 'X')).length
      pattern.take (pattern.length - marks) ++ digits.drop (digits.length - min marks digits.length)
    let path :=
      match call.operands with
      | [] => (call.value? 'p').getD "/tmp".toList ++ "/tmp.".toList ++ digits
      | pattern :: _ =>
        if call.has 't' then "/tmp/".toList ++ filled pattern
        else
          match call.value? 'p' with
          | some folder => folder ++ '/' :: filled pattern
          | none => filled pattern
    let marks := ((call.operands.headD ['X', 'X', 'X']).reverse.takeWhile (· == 'X')).length
    match ← Act.locatePlace path with
    | .error error =>
      let kind := if call.has 'd' then "directory" else "file"
      complainOf "mktemp" (s!"failed to create {kind} via template '".toList ++
        call.operands.headD [] ++ "'".toList) (Act.reason error)
      return 1
    | .ok location =>
      if marks < 3 then
        refuse "mktemp" s!"too few X's in template '{String.ofList (call.operands.headD [])}'"
      else
      if !call.has 'u' then
        Act.setEntry location (if call.has 'd' then .folder else .file "" false)
      Act.print (path ++ ['\n'])
      return 0

/-! ### Listings -/

/-- The names in a folder in their order. -/
def sortedNames (location : FileLocation) : Act (List Raw) := do
  return (((← get).files.namesIn location).map Raw.ofString).mergeSort Raw.le

/-- Lists files and what is in folders. -/
def ls : Utility :=
  withManual ⟨"ls", "1aAdFprRCclthuSiskxfqmgonGZNQbBvUX", "wIT", [("all", 'a'), ("almost-all", 'A'), ("directory", 'd'), ("reverse", 'r'), ("color", 'G')], 2⟩ fun call => do
    let marked (name : Raw) (entry : Option FileEntry) : Raw :=
      match entry with
      | some .folder => if call.has 'F' || call.has 'p' then name ++ ['/'] else name
      | some (.file _ true) | some (.data _ true) => if call.has 'F' then name ++ ['*'] else name
      | _ => name
    let ordered (names : List Raw) : List Raw := if call.has 'r' then names.reverse else names
    let files := (if call.operands.isEmpty then [['.']] else call.operands).mergeSort Raw.le
    let mut status := 0
    let mut plain : List (Raw × Option FileEntry) := []
    let mut folders : List (Raw × FileLocation) := []
    for file in ordered files do
      match ← Act.locate file with
      | .error error =>
        cannot "ls" "cannot access" file error
        status := 2
      | .ok location =>
        let entry := (← get).files.at? location
        if entry = some .folder && !call.has 'd' then folders := folders ++ [(file, location)]
        else plain := plain ++ [(file, entry)]
    let listed (names : List Raw) : Act Unit :=
      if names.isEmpty then return
      else if call.has 'm' then Act.print (Raw.join [',', ' '] names ++ ['\n'])
      else Act.print (Raw.ofLines names)
    listed (plain.map fun (file, entry) => marked file entry)
    let headed := call.operands.length > 1
    let mut first := plain.isEmpty
    for (file, location) in folders do
      if headed then Act.print ((if first then [] else ['\n']) ++ file ++ ":\n".toList)
      first := false
      let names ← sortedNames location
      let names := names.filter fun name =>
        call.has 'a' || call.has 'A' || name.head? != some '.'
      let names := if call.has 'a' then [['.'], ['.', '.']] ++ names else names
      let files := (← get).files
      listed ((ordered names).map fun name =>
        marked name (files.at? (location ++ [Raw.toString name])))
    return status

/-- Compares two texts that have names, and writes the first difference or all of them. Says
whether there is none. -/
def compareTexts (silent all : Bool) (first second left right : Raw) : Act Bool := do
  if left = right then return true
  else if silent then return false
  else
    let pairs := (List.zip left right).zipIdx.filter fun ((one, other), _) => one != other
    let common := min left.length right.length
    if all then
      let width := (Raw.ofNat common).length
      let octal (char : Char) : Raw :=
        let digits := Nat.toDigits 8 char.toNat
        List.replicate (3 - digits.length) ' ' ++ digits
      for ((one, other), place) in pairs do
        Act.print (column width (place + 1) ++ [' '] ++ octal one ++ [' '] ++ octal other ++ ['\n'])
    match if all then none else pairs.head? with
    | some (_, place) =>
      let line := (left.take place).count '\n' + 1
      Act.print (first ++ [' '] ++ second ++ s!" differ: char {place + 1}, line {line}\n".toList)
    | none =>
      if left.length != right.length then
        let (shorter, text) := if left.length < right.length then (first, left) else (second, right)
        let name := String.ofList shorter
        let lines := text.count '\n'
        if common = 0 then complain "cmp" s!"EOF on {name} which is empty"
        else if all then complain "cmp" s!"EOF on {name} after byte {common}"
        else if text.getLast? = some '\n' then
          complain "cmp" s!"EOF on {name} after byte {common}, line {lines}"
        else complain "cmp" s!"EOF on {name} after byte {common}, in line {lines + 1}"
    return false

/-- Compares two files. -/
def cmp : Utility :=
  withManual ⟨"cmp", "slb", "n", [("silent", 's'), ("quiet", 's'), ("verbose", 'l')], 2⟩ fun call => do
    let compared (first second : Raw) : Act Nat := do
      match ← input first, ← input second with
      | .error error, _ =>
        complainOf "cmp" first (Act.reason error)
        return 2
      | _, .error error =>
        complainOf "cmp" second (Act.reason error)
        return 2
      | .ok left, .ok right =>
        return statusOf (← compareTexts (call.has 's') (call.has 'l') first second left right)
    match call.operands with
    | [] =>
      complain "cmp" "missing operand after 'cmp'\ncmp: Try 'cmp --help' for more information."
      return 2
    | [first] => compared first ['-']
    | first :: second :: _ => compared first second

end PomLens.Script.Utility
