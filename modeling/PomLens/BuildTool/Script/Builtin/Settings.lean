/-
This file defines built-in commands that change what a script works with: its folder, its
variables, its switches and its arguments.
-/

import PomLens.BuildTool.Script.Builtin.Basic

namespace PomLens.Script.Builtin

open Act (fail)

/-! ### The folder -/

/-- The path of a folder that a name means in another folder, without looking at files. -/
def folderPath (folder name : Raw) : Raw :=
  let parts := Text.splitOn (· == '/') (if name.head? = some '/' then name else folder ++ '/' :: name)
  let kept := parts.foldl
    (fun (kept : List Raw) part =>
      if part = [] || part = ['.'] then kept
      else if part = ['.', '.'] then kept.tail
      else part :: kept)
    []
  '/' :: Raw.join ['/'] kept.reverse

def pwd : Builtin := fun words => do
  let _ ← options "LP" words
  Act.print (Raw.ofString (← get).folder.text ++ ['\n'])
  return 0

def cd : Builtin := fun words => do
  let (_, words) ← options "LP" words
  let back := words.head? == some ['-']
  let target ←
    match words.head? with
    | none => Act.valueOf? "HOME"
    | some ['-'] => Act.valueOf? "OLDPWD"
    | some folder => pure (some folder)
  let target := target.getD []
  let old := Raw.ofString (← get).folder.text
  let new := folderPath old target
  if (← Act.entry? new) = some .folder then
    modify fun shell => { shell with folder := ⟨Raw.toString new⟩ }
    Act.setVariable "OLDPWD".toList old
    Act.setVariable "PWD".toList new
    if back then Act.print (new ++ ['\n'])
    return 0
  else fail ("can't cd to ".toList ++ target)

/-! ### Variables -/

/-- Writes variables as a script would set them. -/
def printVariables (mark : Raw) (wanted : Binding → Bool) : Act Unit := do
  let bindings := ((← get).bindings.filter fun (_, binding) => wanted binding).mergeSort
    fun (first, _) (second, _) => Raw.le first.toList second.toList
  for (name, binding) in bindings do
    let value := (binding.value.map fun value => '=' :: inQuotes value).getD []
    Act.print (mark ++ name.toList ++ value ++ ['\n'])

/-- Marks variables, after setting those that come with a value. -/
def markVariables (mark : String) (marked : Binding → Bool) (change : Binding → Binding) :
    Builtin := fun words => do
  let (letters, words) ← options "p" words
  if words.isEmpty || letters.contains 'p' then
    printVariables (mark ++ " ").toList marked
  else
    for word in words do
      let (name, value) := nameAndValue word
      if !isName name then fail (name ++ ": bad variable name".toList)
      if let some value := value then Act.setVariable name value
      let name := String.ofList name
      let binding := (← Act.binding? name).getD ⟨none, false, false⟩
      Act.bind name (some (change binding))
  return 0

def «export» : Builtin :=
  markVariables "export" Binding.exported fun binding => { binding with exported := true }

def readonly : Builtin :=
  markVariables "readonly" Binding.fixed fun binding => { binding with fixed := true }

def unset : Builtin := fun words => do
  let (letters, words) ← options "vf" words
  for word in words do
    let name := String.ofList word
    if letters.getLast? = some 'f' then
      modify fun shell =>
        { shell with functions := shell.functions.filter fun (other, _) => other ≠ name }
    else if !isName word then fail (word ++ ": bad variable name".toList)
    else if (← Act.binding? name).any Binding.fixed then
      fail (word ++ ": is read only".toList)
    else Act.bind name none
  return 0

/-- Keeps the binding that a variable had outside the function at hand. -/
def keepBinding (name : String) : Act Unit := do
  let old ← Act.binding? name
  modify fun shell =>
    match shell.locals with
    | [] => shell
    | inner :: outer =>
      if inner.any fun (other, _) => other = name then shell
      else { shell with locals := ((name, old) :: inner) :: outer }

def «local» : Builtin := fun words => do
  if (← get).locals.isEmpty then fail "not in a function".toList
  for word in words do
    let (name, value) := nameAndValue word
    if word != ['-'] then
      if !isName name then fail (name ++ ": bad variable name".toList)
      keepBinding (String.ofList name)
      if let some value := value then Act.setVariable name value
  return 0

/-! ### Reading -/

/-- The mark separates fields. -/
def separates (separators : Raw) : Mark → Bool
  | .char _ loose char => loose && separators.contains char
  | _ => false

/-- The mark separates fields together with others like it. -/
def separatesAsBlank (separators : Raw) : Mark → Bool
  | .char _ loose char => loose && separators.contains char && isFieldBlank char
  | _ => false

/-- The first field of some marks, and the marks behind it and its separators. -/
def takeField (separators : Raw) (marks : List Mark) : List Glyph × List Mark :=
  let isBlank := separatesAsBlank separators
  let marks := marks.dropWhile isBlank
  let field := marks.takeWhile fun mark => !separates separators mark
  let rest := marks.drop field.length
  let behind := rest.dropWhile isBlank
  let behind :=
    match behind with
    | mark :: others => if separates separators mark then others.dropWhile isBlank else behind
    | [] => []
  (glyphs field, behind)

/-- The values that a line gives to so many variables. The last one gets all that is left. -/
def readValues (separators : Raw) : Nat → List Mark → List Raw
  | 0, _ => []
  | 1, marks =>
    match fieldsOf separators marks with
    | [] => [[]]
    | [field] => [glyphText field]
    | _ =>
      let isBlank := separatesAsBlank separators
      let trimmed := ((marks.dropWhile isBlank).reverse.dropWhile isBlank).reverse
      [glyphText (glyphs trimmed)]
  | count + 2, marks =>
    let (field, rest) := takeField separators marks
    glyphText field :: readValues separators (count + 1) rest

/-- Reads a line, and further ones where a backslash stands at the end of a line, unless a
backslash is a character like any other. A character behind a backslash separates nothing.
Says whether the end of the line was there. `fuel` bounds the number of lines. -/
def readMarks (fuel : Nat) (plain : Bool) : Act (List Mark × Bool) := do
  match fuel with
  | 0 => return ([], false)
  | fuel + 1 =>
    let (line, ended) ← Act.readLine
    if plain then return (line.map fun char => .char false true char, ended)
    else
      let (marks, continues) := escaped line
      if continues && ended then
        let (others, ended) ← readMarks fuel plain
        return (marks ++ others, ended)
      else return (marks, ended)
where
  escaped : Raw → List Mark × Bool
    | [] => ([], false)
    | ['\\'] => ([], true)
    | '\\' :: char :: rest =>
      let (marks, continues) := escaped rest
      (.char true false char :: marks, continues)
    | char :: rest =>
      let (marks, continues) := escaped rest
      (.char false true char :: marks, continues)

/-- The options of the command that reads, and the words behind them. The text for a prompt
is of no use. -/
def readOptions : List Raw → Act (Bool × List Raw)
  | ['-', '-'] :: rest => return (false, rest)
  | ('-' :: first :: more) :: rest => do
    let letters := (first :: more).takeWhile (· != 'p')
    if let some letter := letters.find? (· != 'r') then
      fail ("Illegal option -".toList ++ [letter])
    let plain := !letters.isEmpty
    if letters.length = more.length then
      match rest with
      | [] => fail "No arg for -p option".toList
      | _ :: rest => do
        let (others, names) ← readOptions rest
        return (plain || others, names)
    else
      let (others, names) ← readOptions rest
      return (plain || others, names)
  | words => return (false, words)

def read : Builtin := fun words => do
  let (plain, names) ← readOptions words
  if names.isEmpty then fail "arg count".toList
  for name in names do
    if !isName name then fail (name ++ ": bad variable name".toList)
  let (marks, ended) ← readMarks 10000 plain
  let values := readValues (← Act.separators) names.length marks
  for (name, value) in List.zip names (values ++ List.replicate names.length []) do
    Act.setVariable name (value.filter (· != '\x00'))
  return if ended then 0 else 1

/-! ### Arguments -/

def shift : Builtin := fun words => do
  let count ←
    match words with
    | [] => pure 1
    | word :: _ => number word
  let arguments := (← get).arguments
  if arguments.length < count then fail "can't shift that many".toList
  Act.setArguments (arguments.drop count)
  return 0

/-- The letters of switches with their long names, in the order in which they are listed. -/
def switchNames : List (Char × String) :=
  [('e', "errexit"), ('f', "noglob"), ('I', "ignoreeof"), ('i', "interactive"), ('m', "monitor"),
    ('n', "noexec"), ('s', "stdin"), ('x', "xtrace"), ('v', "verbose"), ('V', "vi"),
    ('E', "emacs"), ('C', "noclobber"), ('a', "allexport"), ('b', "notify"), ('u', "nounset")]

/-- Turns a switch on or off. -/
def setSwitch (on : Bool) (letter : Char) : Act Unit := do
  if !(switchNames.any fun (other, _) => other = letter) then
    fail ("Illegal option ".toList ++ [if on then '-' else '+', letter])
  modify fun shell =>
    { shell with
      switches := (switchNames.map Prod.fst).reverse.filter fun other =>
        if other = letter then on else shell.switches.contains other }

/-- Turns a switch on or off by its long name. -/
def setNamedSwitch (on : Bool) (name : Raw) : Act Unit := do
  match switchNames.find? fun (_, other) => other.toList = name with
  | some (letter, _) => setSwitch on letter
  | none => fail ("Illegal option ".toList ++ [if on then '-' else '+'] ++ "o ".toList ++ name)

/-- Writes how the switches stand. -/
def printSwitches : Act Unit := do
  let switches := (← get).switches
  Act.print "Current option settings\n".toList
  for (letter, name) in switchNames do
    let filling := List.replicate (16 - name.length) ' '
    let state := if switches.contains letter then "on\n" else "off\n"
    Act.print (name.toList ++ filling ++ state.toList)

/-- Turns switches on and off, and gives the words behind them. Without such words there may
still be a mark that there are none. -/
def readSwitches : List Raw → Act (Option (List Raw))
  | [] => return none
  | ['-', '-'] :: rest => return some rest
  | ['-'] :: rest => do
    for letter in ['x', 'v'] do setSwitch false letter
    return if rest.isEmpty then none else some rest
  | (sign :: letters) :: rest => do
    if sign != '-' && sign != '+' then return some ((sign :: letters) :: rest)
    let on := sign == '-'
    for letter in letters.filter (· != 'o') do setSwitch on letter
    if letters.contains 'o' then
      match rest with
      | [] =>
        printSwitches
        return none
      | name :: rest =>
        setNamedSwitch on name
        readSwitches rest
    else readSwitches rest
  | words => return some words

def «set» : Builtin := fun words => do
  if words.isEmpty then printVariables [] fun binding => binding.value.isSome
  else
    if let some arguments ← readSwitches words then
      Act.setArguments arguments
  return 0

/-- Reads the next option of some words into variables. -/
def getopts : Builtin := fun words => do
  match words with
  | letters :: name :: words =>
    let shell ← get
    let words := if words.isEmpty then shell.arguments else words
    let place := if words.length + 1 < shell.optionIndex then 1 else shell.optionIndex
    let silent := letters.head? = some ':'
    let group : Raw :=
      if place ≤ 1 || shell.optionPlace = 0 then []
      else ((words[place - 2]?).getD []).drop shell.optionPlace
    let finish (place optionPlace : Nat) (letter : Char) (status : Nat) : Act Nat := do
      Act.setVariable "OPTIND".toList (Raw.ofNat place)
      Act.setVariable name [letter]
      modify fun shell => { shell with optionIndex := place, optionPlace }
      return status
    /- Reads a letter in front of the rest of its group; `place` is behind the group. -/
    let take (letter : Char) (rest : Raw) (place : Nat) : Act Nat := do
      let length := ((words[place - 2]?).getD []).length
      let after := if rest.isEmpty then 0 else length - rest.length
      match letters.dropWhile (· != letter) with
      | [] =>
        if silent then Act.setVariable "OPTARG".toList [letter]
        else
          Act.printError ("Illegal option -".toList ++ [letter])
          Act.bind "OPTARG" none
        finish place after '?' 0
      | _ :: ':' :: _ =>
        match rest, words[place - 1]? with
        | [], none =>
          if silent then
            Act.setVariable "OPTARG".toList [letter]
            finish place 0 ':' 0
          else
            Act.printError ("No arg for -".toList ++ [letter] ++ " option".toList)
            Act.bind "OPTARG" none
            finish place 0 '?' 0
        | [], some value =>
          Act.setVariable "OPTARG".toList value
          finish (place + 1) 0 letter 0
        | value, _ =>
          Act.setVariable "OPTARG".toList value
          finish place 0 letter 0
      | _ =>
        Act.setVariable "OPTARG".toList []
        finish place after letter 0
    match group with
    | letter :: rest => take letter rest place
    | [] =>
      match words[place - 1]? with
      | some ['-', '-'] => finish (place + 1) 0 '?' 1
      | some ('-' :: letter :: rest) => take letter rest (place + 1)
      | _ => finish place 0 '?' 1
  | _ => fail "Usage: getopts optstring var [arg...]".toList

end PomLens.Script.Builtin
