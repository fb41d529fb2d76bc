/-
This file defines the utility that walks through folders and looks for files.

What it looks for is an expression of criteria, some of which also do something with what
fits. A criterion is asked about each file and folder on the way, a folder before what is in
it. Without one that does something, what fits is written down.
-/

import PomLens.BuildTool.Script.Utility.Nested
import PomLens.BuildTool.Script.Utility.Files

namespace PomLens.Script.Utility.Finder

/-! ### Criteria -/

inductive Criterion
  | always (holds : Bool)
  /-- The last step of the path, or the whole path, matches a pattern. -/
  | named (folded whole : Bool) (pattern : Raw)
  /-- A folder, or else a file. -/
  | kind (folders files : Bool)
  | empty
  /-- So many units of some bytes, more than that or fewer. -/
  | size (order : Ordering) (count unit : Nat)
  | executable
  | negated (inner : Criterion)
  | both (first second : Criterion)
  | either (first second : Criterion)
  /-- Writes the path with a character behind it. -/
  | show (mark : Char)
  /-- Writes what a format says about the path. -/
  | format (format : Raw)
  | removes
  /-- What is in the folder is not looked at. -/
  | prunes
  | quits
  /-- Runs a program for the path, or once for all of them. -/
  | runs (together : Bool) (words : List Raw)
  deriving Repr

/-- The criterion does something. -/
def Criterion.acts : Criterion → Bool
  | .negated inner => inner.acts
  | .both first second | .either first second => first.acts || second.acts
  | .show _ | .format _ | .removes | .runs .. => true
  | _ => false

/-- How far a walk goes. -/
structure Bounds where
  least : Nat
  most : Option Nat
  /-- A folder comes behind what is in it. -/
  late : Bool

/-- Reading takes words away and collects the bounds. It can fail with a complaint. -/
abbrev Read := StateT (List Raw × Bounds) (Except String)

def changeBounds (change : Bounds → Bounds) : Read Criterion := do
  modify fun (words, bounds) => (words, change bounds)
  return .always true

/-- The argument of a criterion. -/
def argument (name : Raw) : Read Raw := do
  match (← get).1 with
  | [] => throw s!"missing argument to `{String.ofList name}'"
  | word :: rest =>
    modify fun (_, bounds) => (rest, bounds)
    return word

/-- A number that a criterion is given. -/
def depthArgument (name : Raw) : Read Nat := do
  let word ← argument name
  match Raw.nat? word with
  | some number => return number
  | none =>
    let (name, shown) := (String.ofList name, String.ofList word)
    throw s!"Expected a positive decimal integer argument to {name}, but got '{shown}'"

/-- The words of a program up to the mark behind them, and whether it is run once for all. -/
def programWords (name : Raw) : Read Criterion := do
  let words := (← get).1
  let isEnd (place : Nat) (word : Raw) : Bool :=
    word = [';'] || (word = ['+'] && 0 < place && words[place - 1]? == some ['\x7b', '\x7d'])
  match words.zipIdx.findIdx? fun (word, place) => isEnd place word with
  | none => throw s!"missing argument to `{String.ofList name}'"
  | some place =>
    modify fun (_, bounds) => (words.drop (place + 1), bounds)
    let together := words[place]? == some ['+']
    return .runs together (words.take (if together then place - 1 else place))

/-- A size with a sign and a letter for its unit. -/
def size? (word : Raw) : Option Criterion :=
  let (order, rest) :=
    match word with
    | '+' :: rest => (Ordering.gt, rest)
    | '-' :: rest => (Ordering.lt, rest)
    | rest => (Ordering.eq, rest)
  let digits := rest.takeWhile Char.isDigit
  let unit? :=
    match rest.drop digits.length with
    | [] | ['b'] => some 512
    | ['c'] => some 1
    | ['w'] => some 2
    | ['k'] => some 1024
    | ['M'] => some 1048576
    | ['G'] => some 1073741824
    | _ => none
  match Raw.nat? digits, unit? with
  | some count, some unit => some (.size order count unit)
  | _, _ => none

/-- Reads a criterion by its name. -/
def readNamed (word : Raw) : Read Criterion := do
  match String.ofList word with
  | "-name" => return .named false false (← argument word)
  | "-iname" => return .named true false (← argument word)
  | "-path" | "-wholename" => return .named false true (← argument word)
  | "-ipath" => return .named true true (← argument word)
  | "-type" =>
    let kinds := Text.splitOn (· == ',') (← argument word)
    match kinds.find? fun kind => !"fdlpscb".toList.contains (kind.headD ' ') with
    | some kind => throw s!"Unknown argument to -type: {String.ofList kind}"
    | none => return .kind (kinds.contains ['d']) (kinds.contains ['f'])
  | "-empty" => return .empty
  | "-size" =>
    let given ← argument word
    match size? given with
    | some criterion => return criterion
    | none => throw s!"invalid argument '{String.ofList given}' to `-size'"
  | "-executable" => return .executable
  | "-readable" | "-writable" | "-true" => return .always true
  | "-false" => return .always false
  | "-print" => return .show '\n'
  | "-print0" => return .show '\x00'
  | "-printf" => return .format (← argument word)
  | "-delete" =>
    let _ ← changeBounds fun bounds => { bounds with late := true }
    return .removes
  | "-prune" => return .prunes
  | "-quit" => return .quits
  | "-exec" | "-execdir" | "-ok" => programWords word
  | "-maxdepth" =>
    let number ← depthArgument word
    changeBounds fun bounds => { bounds with most := some number }
  | "-mindepth" =>
    let number ← depthArgument word
    changeBounds fun bounds => { bounds with least := number }
  | "-depth" | "-d" => changeBounds fun bounds => { bounds with late := true }
  | "-follow" | "-xdev" | "-mount" | "-noleaf" | "-daystart" => return .always true
  | name => throw s!"unknown predicate `{name}'"

mutual

/-- Reads alternatives. -/
def readEither (fuel : Nat) : Read Criterion := do
  match fuel with
  | 0 => return .always true
  | fuel + 1 =>
    let first ← readBoth fuel
    match (← get).1 with
    | word :: rest =>
      if word = "-o".toList || word = "-or".toList then
        modify fun (_, bounds) => (rest, bounds)
        if rest.isEmpty then throw s!"expected an expression after '{String.ofList word}'"
        return .either first (← readEither fuel)
      else return first
    | [] => return first

/-- Reads criteria that must all hold. -/
def readBoth (fuel : Nat) : Read Criterion := do
  match fuel with
  | 0 => return .always true
  | fuel + 1 =>
    let first ← readOne fuel
    match (← get).1 with
    | [] => return first
    | word :: rest =>
      if word = "-a".toList || word = "-and".toList then
        modify fun (_, bounds) => (rest, bounds)
        if rest.isEmpty then throw s!"expected an expression after '{String.ofList word}'"
        return .both first (← readBoth fuel)
      else if word = "-o".toList || word = "-or".toList || word = [')'] then return first
      else return .both first (← readBoth fuel)

/-- Reads one criterion. -/
def readOne (fuel : Nat) : Read Criterion := do
  match fuel, (← get).1 with
  | 0, _ | _, [] => return .always true
  | fuel + 1, word :: rest =>
    modify fun (_, bounds) => (rest, bounds)
    match String.ofList word with
    | "!" | "-not" =>
      if rest.isEmpty then throw s!"expected an expression after '{String.ofList word}'"
      return .negated (← readOne fuel)
    | "(" =>
      let inner ← readEither fuel
      match (← get).1 with
      | [')'] :: rest =>
        modify fun (_, bounds) => (rest, bounds)
        return inner
      | _ =>
        throw "invalid expression; I was expecting to find a ')' somewhere but did not see one."
    | "-o" | "-or" | "-a" | "-and" =>
      let shown := String.ofList word
      throw s!"invalid expression; you have used a binary operator '{shown}' with nothing before it."
    | name =>
      if word.head? == some '-' then readNamed word
      else throw s!"paths must precede expression: `{name}'"

end

/-- Reads an expression. Without a criterion everything fits. -/
def readExpression (words : List Raw) : Except String (Criterion × Bounds) := do
  if words.isEmpty then return (.show '\n', ⟨0, none, false⟩)
  else
    let (criterion, rest, bounds) ← readEither (4 * (words.length + 1)) (words, ⟨0, none, false⟩)
    match rest with
    | [] => return (if criterion.acts then criterion else .both criterion (.show '\n'), bounds)
    | _ :: _ =>
      throw "invalid expression; you have too many ')'"

/-! ### Walking -/

/-- What a walk has come to. -/
structure Walk where
  pruned : Bool
  isOver : Bool
  complete : Bool
  /-- Programs that are run for all paths at the end, with these paths. -/
  waiting : List (List Raw × List Raw)

/-- A step of a walk. -/
abbrev Step := StateT Walk Act

/-- A file or folder on the way. -/
structure Place where
  path : Raw
  location : FileLocation
  depth : Nat

/-- What a format says about a place. -/
def described (place : Place) (isFolder : Bool) (length : Nat) : Raw → Raw
  | '%' :: letter :: rest =>
    let shown :=
      match letter with
      | 'p' => place.path
      | 'f' => lastStep place.path []
      | 'h' => folderOf place.path
      | 'P' => Raw.join ['/'] ((place.location.drop (place.location.length - place.depth)).map
          Raw.ofString)
      | 'd' => Raw.ofNat place.depth
      | 's' => Raw.ofNat length
      | 'y' => if isFolder then ['d'] else ['f']
      | '%' => ['%']
      | other => ['%', other]
    shown ++ described place isFolder length rest
  | '\\' :: 'n' :: rest => '\n' :: described place isFolder length rest
  | '\\' :: 't' :: rest => '\t' :: described place isFolder length rest
  | '\\' :: '0' :: rest => '\x00' :: described place isFolder length rest
  | '\\' :: '\\' :: rest => '\\' :: described place isFolder length rest
  | char :: rest => char :: described place isFolder length rest
  | [] => []

/-- The words of a program with a path in place of the marks for it. -/
def filled (words : List Raw) (path : Raw) : List Raw :=
  words.map fun word => replaced ['\x7b', '\x7d'] path (word.length + 1) word

/-- Runs a program and says whether it succeeds. -/
def succeeds (invoke : Invoke) (words : List Raw) : Act Bool := do
  match ← invoke words with
  | .ok status => return status = 0
  | .error error =>
    complainOf "find" ("'".toList ++ words.headD [] ++ "'".toList) (Act.reason error)
    return false

/-- The size of what stands at a place. A folder has the size of one block. -/
def sizeAt (place : Place) : Act Nat := do
  match (← get).files.at? place.location with
  | some .folder => return 4096
  | entry => return (entry.map Act.contentOf).elim 0 List.length

/-- Asks a criterion about a place, and does what it says. -/
def holds (invoke : Invoke) (place : Place) : Criterion → Step Bool
  | .always result => return result
  | .named folded whole pattern => do
    let text := if whole then place.path else lastStep place.path []
    let lower (raw : Raw) : Raw := if folded then raw.map Char.toLower else raw
    return isMatch ((lower pattern).map fun char => ⟨false, char⟩) (lower text)
  | .kind folders files => do
    let isFolder := (← getThe Shell).files.at? place.location == some .folder
    return if isFolder then folders else files
  | .empty => do
    let tree := (← getThe Shell).files
    match tree.at? place.location with
    | some .folder => return (tree.namesIn place.location).isEmpty
    | entry => return (entry.map Act.contentOf).all List.isEmpty
  | .size order count unit => do
    return compare (((← sizeAt place) + unit - 1) / unit) count == order
  | .executable => do
    match (← getThe Shell).files.at? place.location with
    | some (.file _ executable) | some (.data _ executable) => return executable
    | _ => return true
  | .negated inner => do return !(← holds invoke place inner)
  | .both first second => do
    if ← holds invoke place first then holds invoke place second else return false
  | .either first second => do
    if ← holds invoke place first then return true else holds invoke place second
  | .show mark => do
    Act.print (place.path ++ [mark])
    return true
  | .format format => do
    let isFolder := (← getThe Shell).files.at? place.location == some .folder
    Act.print (described place isFolder (← sizeAt place) format)
    return true
  | .removes => do
    let tree := (← getThe Shell).files
    if (tree.namesIn place.location).isEmpty && !place.location.isEmpty then
      Act.removeEntry place.location
      return true
    else
      complainOf "find" ("cannot delete '".toList ++ place.path ++ "'".toList)
        "Directory not empty".toList
      modify fun walk => { walk with complete := false }
      return false
  | .prunes => do
    modify fun walk => { walk with pruned := true }
    return true
  | .quits => do
    modify fun walk => { walk with isOver := true }
    return false
  | .runs false words => do succeeds invoke (filled words place.path)
  | .runs true words => do
    modify fun walk =>
      let others := walk.waiting.filter fun (other, _) => other != words
      let paths := (walk.waiting.lookup words).getD []
      { walk with waiting := others ++ [(words, paths ++ [place.path])] }
    return true

/-- Walks through what stands at and below a place. `fuel` bounds the depth. -/
def walkFrom (invoke : Invoke) (criterion : Criterion) (bounds : Bounds) (fuel : Nat)
    (place : Place) : Step Unit := do
  match fuel with
  | 0 => return
  | fuel + 1 =>
    if (← get).isOver then return
    let ask : Step Unit := do
      if bounds.least ≤ place.depth && !(← get).isOver then
        let _ ← holds invoke place criterion
    modify fun walk => { walk with pruned := false }
    if !bounds.late then ask
    let pruned := (← get).pruned
    let isFolder := (← getThe Shell).files.at? place.location == some .folder
    if isFolder && !pruned && bounds.most.all (place.depth < ·) then
      let names := ((← getThe Shell).files.namesIn place.location).map Raw.ofString
      let front := if place.path.getLast? = some '/' then place.path else place.path ++ ['/']
      for name in names.mergeSort Raw.le do
        walkFrom invoke criterion bounds fuel
          ⟨front ++ name, place.location ++ [Raw.toString name], place.depth + 1⟩
    if bounds.late then ask

/-- The depth that no folder has. -/
def depthLimit : Nat := 400

/-- Looks for files. -/
def find (invoke : Invoke) : Utility := fun words => do
  let isStart (word : Raw) : Bool :=
    word = ['('] || word = ['!'] || (1 < word.length && word.head? == some '-')
  let words := words.filter fun word => word != "-L".toList && word != "-H".toList
  let paths := words.takeWhile fun word => !isStart word
  match readExpression (words.drop paths.length) with
  | .error message =>
    complain "find" message
    return 1
  | .ok (criterion, bounds) =>
    let mut walk : Walk := ⟨false, false, true, []⟩
    for path in if paths.isEmpty then [['.']] else paths do
      match ← Act.locate path with
      | .error error =>
        complainOf "find" ("'".toList ++ path ++ "'".toList) (Act.reason error)
        walk := { walk with complete := false }
      | .ok location =>
        let ((), after) ← (walkFrom invoke criterion bounds depthLimit ⟨path, location, 0⟩).run walk
        walk := after
    let mut complete := walk.complete
    for (words, paths) in walk.waiting do
      complete := (← succeeds invoke (words ++ paths)) && complete
    return statusOf complete

end PomLens.Script.Utility.Finder
