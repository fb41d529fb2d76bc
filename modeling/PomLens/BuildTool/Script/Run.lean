/-
This file runs the commands of a script.

One step runs a command, given how the commands inside it are run; taking steps inside steps
up to some depth runs any command. A command may end the script or the function at hand, and
a failure ends the script where the script wants that and nothing asks how the command ends.
Commands that would run beside each other run one after the other.
-/

import PomLens.BuildTool.Script.Channels
import PomLens.BuildTool.Script.Reader
import PomLens.BuildTool.Script.Utility.Known
import PomLens.BuildTool.Tool

namespace PomLens.Script

open Act (attempt complain fail setStatus setFlow isRunning)

/-- How commands are run. The first argument says that something asks how the command ends,
so that its failure does not end the script. -/
abbrev Runs := Bool → Command → Act Unit

/-! ### Lists of commands -/

/-- Runs commands one after another. -/
def runAll (run : Runs) (tested : Bool) : List Command → Act Unit
  | [] => return
  | command :: rest => do
    run tested command
    if ← isRunning then runAll run tested rest

/-- Runs the lines of a text. `fuel` bounds their number. -/
def runLines (run : Runs) (tested : Bool) (fuel : Nat) (source : Source) : Act Unit := do
  match fuel with
  | 0 => return
  | fuel + 1 =>
    match nextLine? { source with aliases := (← get).aliases } with
    | .error complaint =>
      modify fun shell => { shell with line := complaint.line }
      fail complaint.message.toList
    | .ok none => return
    | .ok (some (commands, after)) =>
      modify fun shell => { shell with linesRead := after.line }
      runAll run tested commands
      if ← isRunning then runLines run tested fuel after

/-- Runs a text. -/
def runText (run : Runs) (tested : Bool) (text : Raw) : Act Unit := do
  let linesRead := (← get).linesRead
  runLines run tested (text.length + 1) (.start text)
  modify fun shell => { shell with linesRead }

/-! ### Parts of a script that stand for themselves -/

/-- Runs what a script has said is to be run at a signal. The status is what it was before,
unless this ends the script. -/
def runTrap (run : Runs) (action : Raw) : Act Unit := do
  let outer ← get
  modify fun shell => { shell with before := some outer.status, flow := .running }
  let result ← attempt (runText run false action)
  modify fun shell => { shell with before := outer.before }
  match result with
  | .error .exiting => throw .exiting
  | .error halt => throw halt
  | .ok _ => modify fun shell => { shell with status := outer.status, flow := outer.flow }

/-- Runs what is to be run at the end of the script. -/
def runEnd (run : Runs) : Act Unit := do
  match (← get).traps.lookup "EXIT" with
  | none | some [] => return
  | some action =>
    modify fun shell =>
      { shell with traps := shell.traps.filter fun (name, _) => name ≠ "EXIT" }
    runTrap run action

/-- Runs something to its end, whether it comes there by itself or not. Only a signal goes on
to stop what is around it. -/
def runToEnd (run : Runs) (action : Act Unit) : Act Unit := do
  match ← attempt action with
  | .error (.killed signal) => throw (.killed signal)
  | _ =>
    match ← attempt (runEnd run) with
    | .error (.killed signal) => throw (.killed signal)
    | _ => return

/-- The signals that have come. Each lets run what the script has said. -/
def runSignals (run : Runs) : Act Unit := do
  let signals := (← get).signals
  if !signals.isEmpty then
    modify fun shell => { shell with signals := [] }
    for signal in signals do
      match (← get).traps.lookup (signalName signal) with
      | none | some [] => pure ()
      | some action => runTrap run action

/-- Runs something that cannot change the script, but its files and streams alone. Gives the
status. -/
def apart (run : Runs) (action : Act Unit) : Act Nat := do
  let outer ← get
  modify fun shell =>
    { shell with
      traps := shell.traps.filter fun (_, action) => action.isEmpty
      signals := []
      apartness := shell.apartness + 1 }
  let result ← attempt (runToEnd run action)
  let inner ← get
  set
    { outer with
      streams := inner.streams, files := inner.files, made := inner.made, doom := inner.doom }
  match result with
  | .error halt => throw halt
  | .ok _ =>
    if outer.apartness = 0 then
      if let some signal := inner.doom then throw (.killed signal)
    return inner.status

/-- Runs commands and gives what they write. -/
def capture (run : Runs) : Capture := fun commands => do
  let place ← Act.addStream (.collected [])
  let status ← apart run do
    Act.setChannel 1 (some place)
    setStatus 0
    runAll run false commands
  modify fun shell => { shell with captured := some status }
  Act.collected place

/-- Runs commands each of which reads what the one before it writes, and gives the status of
the last one. -/
def runPipeline (run : Runs) (tested : Bool) (input : Option Nat) : List Command → Act Nat
  | [] => return 0
  | [last] => apart run do
    if input.isSome then Act.setChannel 0 input
    run tested last
  | first :: rest => do
    let place ← Act.addStream (.collected [])
    let _ ← apart run do
      if input.isSome then Act.setChannel 0 input
      Act.setChannel 1 (some place)
      run tested first
    let text ← Act.collected place
    runPipeline run tested (some (← Act.addStream (.source text none))) rest

/-! ### Functions -/

/-- Takes a step with bindings of variables that end with it. -/
def withBindings {α : Type} (action : Act α) : Act α := do
  modify fun shell => { shell with locals := [] :: shell.locals }
  let result ← attempt action
  let kept := ((← get).locals.head?).getD []
  for (name, binding) in kept do
    Act.bind name binding
  modify fun shell => { shell with locals := shell.locals.tail }
  match result with
  | .ok value => return value
  | .error halt => throw halt

/-- Calls a function. -/
def callFunction (run : Runs) (tested : Bool) (body : Command) (arguments : List Raw) :
    Act Unit := do
  let outer ← get
  let result ← attempt <| withBindings do
    modify fun shell => { shell with arguments, loops := 0, optionIndex := 1, optionPlace := 0 }
    run tested body
  modify fun shell =>
    { shell with
      arguments := outer.arguments
      optionIndex := outer.optionIndex
      optionPlace := outer.optionPlace
      loops := outer.loops
      flow := if shell.flow == .returning then .running else shell.flow }
  match result with
  | .ok _ => return
  | .error halt => throw halt

/-! ### Programs -/

/-- Runs a script as a process of its own, which sees the variables that programs see, and
gives its status. -/
def asProcess (run : Runs) (name : Raw) (arguments : List Raw) (switches : List (Bool × Char))
    (action : Act Unit) : Act Nat := do
  let outer ← get
  let exported := outer.bindings.filter fun (_, binding) => binding.exported
  let loosened (entry : String × Binding) := (entry.1, { entry.2 with fixed := false })
  let own : List (String × Raw) :=
    [("IFS", " \t\n".toList), ("OPTIND", ['1']), ("PS1", "# ".toList), ("PS2", "> ".toList),
      ("PS4", "+ ".toList), ("PWD", Raw.ofString outer.folder.text)]
  set
    { outer with
      bindings := exported.map loosened,
      functions := [],
      name := name,
      arguments := arguments,
      status := 0,
      flow := .running,
      switches := [],
      traps := outer.traps.filter (fun (_, action) => action.isEmpty),
      signals := [],
      locals := [],
      loops := 0,
      line := 0,
      linesRead := 0,
      command := none,
      aside := none,
      optionIndex := 1,
      optionPlace := 0,
      before := none,
      depth := outer.depth + 1,
      apartness := 0,
      doom := none }
  let result ← attempt <| runToEnd run do
    for (name, value) in own do
      Act.assign name value
    for (on, letter) in switches do
      Builtin.setSwitch on letter
    action
  let inner ← get
  set { outer with streams := inner.streams, files := inner.files, made := inner.made }
  match result with
  | .error (.killed signal) =>
    if outer.depth = 0 then throw (.killed signal)
    if let some text := signalText? signal then Act.printError text.toList
    return 128 + signal
  | _ => return inner.status

/-- How a command shell is called. -/
structure ShellCall where
  switches : List (Bool × Char)
  /-- The script is among the words. -/
  spoken : Bool
  words : List Raw

/-- Reads the options of a command shell. -/
def ShellCall.read (call : ShellCall) : List Raw → Except Raw ShellCall
  | ['-', '-'] :: rest | ['-'] :: rest => return { call with words := rest }
  | (sign :: letter :: more) :: rest =>
    if sign = '-' || sign = '+' then
      let letters := letter :: more
      match letters.find? fun letter =>
          !("cols".toList.contains letter || Builtin.switchNames.any fun (other, _) => other = letter) with
      | some wrong => throw ("Illegal option ".toList ++ [sign, wrong])
      | none =>
        let switches := (letters.filter fun letter => !"cols".toList.contains letter).map
          fun letter => (sign == '-', letter)
        let call :=
          { call with
            switches := call.switches ++ switches
            spoken := call.spoken || letters.contains 'c' }
        if letters.contains 'o' then
          match rest with
          | name :: rest =>
            match Builtin.switchNames.find? fun (_, other) => other.toList = name with
            | some (letter, _) =>
              ShellCall.read { call with switches := call.switches ++ [(sign == '-', letter)] } rest
            | none => throw ("Illegal option ".toList ++ [sign] ++ "o ".toList ++ name)
          | [] => ShellCall.read call []
        else ShellCall.read call rest
    else return { call with words := (sign :: letter :: more) :: rest }
  | words => return { call with words }

/-- Runs a command shell with the words of a call. -/
def runShell (run : Runs) (name : Raw) (words : List Raw) : Act Nat := do
  let refuse (message : Raw) : Act Nat := do
    Act.printError (name ++ ": 0: ".toList ++ message)
    return 2
  match ShellCall.read ⟨[], false, []⟩ words with
  | .error message => refuse message
  | .ok call =>
    match call.spoken, call.words with
    | true, [] => refuse "-c requires an argument".toList
    | true, text :: words =>
      asProcess run (words.headD name) words.tail call.switches (runText run false text)
    | false, [] =>
      let text ← Act.readAll 0
      asProcess run name [] call.switches (runText run false text)
    | false, file :: arguments =>
      match ← Act.readFile file with
      | .ok text => asProcess run file arguments call.switches (runText run false text)
      | .error .isAFolder => return 0
      | .error error =>
        refuse ("cannot open ".toList ++ file ++ ": ".toList ++
          Act.openReason "No such file" error)

/-- Runs a program with arguments, under the path at which it was found. `fuel` bounds how
many programs start others. -/
def execute (run : Runs) (fuel : Nat) (strict : Bool) (path : Raw) (program : Program)
    (arguments : List Raw) : Act (Except FileError Nat) := do
  match fuel with
  | 0 => return .error .noProgram
  | fuel + 1 =>
    match program with
    | .known "sh" => return .ok (← runShell run "sh".toList arguments)
    | .known "dash" => return .ok (← runShell run "dash".toList arguments)
    | .known "bash" => return .ok (← runShell run "bash".toList arguments)
    | .known name =>
      let invoke : Utility.Invoke := fun words => do
        match ← Act.findProgram (words.headD []) with
        | .error error => return .error error
        | .ok (path, program) => execute run fuel false path program words.tail
      match Utility.known? invoke name with
      | some utility => return .ok (← utility arguments)
      | none => return .error .notFound
    | .file _ content =>
      match interpreter? content with
      | none =>
        if strict then return .error .noProgram
        else return .ok (← runShell run "sh".toList (path :: arguments))
      | some interpreter =>
        match ← Act.programAt interpreter.path with
        | .error error => return .error error
        | .ok program =>
          execute run fuel true interpreter.path program
            (interpreter.argument.toList ++ path :: arguments)

/-- How many programs may start others. -/
def programDepth : Nat := 40

/-- Runs a program as a command of the script. -/
def runProgram (run : Runs) (name : Raw) (arguments : List Raw) : Act Nat := do
  let result ←
    match ← Act.findProgram name with
    | .error error => pure (.error error)
    | .ok (path, program) => execute run programDepth false path program arguments
  match result with
  | .ok status => return status
  | .error error =>
    let missing := if name.isEmpty then "Permission denied" else "not found"
    complain (name ++ ": ".toList ++ Act.openReason missing error)
    return if name.contains '/' then failureStatus error else 127

/-! ### Built-in commands that run others -/

/-- Built-in commands that act on the shell alone. -/
def plainBuiltin? (name : String) : Option Builtin :=
  match name with
  | ":" | "true" => some fun _ => return 0
  | "false" => some fun _ => return 1
  | "[" => some Builtin.bracket
  | "alias" => some Builtin.aliases
  | "bg" | "fg" => some Builtin.noJob
  | "break" => some (Builtin.leaveLoops .breaking)
  | "cd" | "chdir" => some Builtin.cd
  | "continue" => some (Builtin.leaveLoops .continuing)
  | "echo" => some Builtin.echo
  | "exit" => some Builtin.exit
  | "export" => some Builtin.export
  | "getopts" => some Builtin.getopts
  | "jobs" => some fun _ => return 0
  | "kill" => some Builtin.kill
  | "local" => some Builtin.local
  | "printf" => some Builtin.printf
  | "pwd" => some Builtin.pwd
  | "read" => some Builtin.read
  | "readonly" => some Builtin.readonly
  | "return" => some Builtin.return
  | "set" => some Builtin.set
  | "shift" => some Builtin.shift
  | "test" => some Builtin.test
  | "times" => some Builtin.times
  | "trap" => some Builtin.trap
  | "ulimit" => some Builtin.ulimit
  | "umask" => some Builtin.umask
  | "unalias" => some Builtin.unalias
  | "unset" => some Builtin.unset
  | "wait" => some Builtin.wait
  | _ => none

/-- The name of a command that is built into the shell. -/
def isBuiltin (name : String) : Bool :=
  (plainBuiltin? name).isSome || [".", "command", "eval", "exec", "hash", "type"].contains name

/-- Writes what a name means as a command, in short or in a sentence. -/
def describe (short : Bool) (word : Raw) : Act Nat := do
  let name := String.ofList word
  let say (sentence : String) : Act Nat := do
    Act.print (if short then word ++ ['\n'] else word ++ (sentence ++ "\n").toList)
    return 0
  if keywords.contains name then say " is a shell keyword"
  else if let some value := (← get).aliases.lookup name then
    let text :=
      if short then "alias ".toList ++ word ++ '=' :: Builtin.inQuotes value
      else word ++ " is an alias for ".toList ++ value
    Act.print (text ++ ['\n'])
    return 0
  else if ((← get).functions.lookup name).isSome then say " is a shell function"
  else if specialNames.contains name then say " is a special shell builtin"
  else if isBuiltin name then say " is a shell builtin"
  else
    match ← Act.findProgram word with
    | .ok (path, _) =>
      Act.print (if short then path ++ ['\n'] else word ++ " is ".toList ++ path ++ ['\n'])
      return 0
    | .error _ =>
      if !short then Act.print (word ++ ": not found\n".toList)
      return 127

/-- Says what names mean as commands. -/
def typeCommand : Builtin := fun words => do
  let mut status := 0
  for word in words do
    status := max status (← describe false word)
  return status

/-- Looks up programs. -/
def hashCommand : Builtin := fun words => do
  let mut status := 0
  for word in words.filter fun word => word.head? != some '-' do
    let isKnown := isBuiltin (String.ofList word) ||
      ((← get).functions.lookup (String.ofList word)).isSome
    if !isKnown && (← Act.findProgram word).toOption.isNone then
      complain (word ++ ": not found".toList)
      status := 1
  return status

/-- Runs words as a text of the script. -/
def evalCommand (run : Runs) (tested : Bool) : Builtin := fun words => do
  setStatus 0
  runText run tested (Raw.join [' '] words)
  return (← get).status

/-- Runs a file as a part of the script. -/
def dotCommand (run : Runs) : Builtin := fun words => do
  match words with
  | [] => return 0
  | name :: _ =>
    let path ←
      if name.contains '/' then pure name
      else do
        let folders := Text.splitOn (· == ':') ((← Act.valueOf? "PATH").getD usualFolders)
        let mut found := none
        for folder in folders do
          let path := if folder.isEmpty then name else folder ++ '/' :: name
          if found.isNone && (← Act.entry? path).any FileEntry.isFile then found := some path
        match found with
        | some path => pure path
        | none => fail (name ++ ": not found".toList)
    match ← Act.readFile path with
    | .error .isAFolder => return 0
    | .error error =>
      fail ("cannot open ".toList ++ path ++ ": ".toList ++ Act.openReason "No such file" error)
    | .ok text =>
      modify fun shell => { shell with command := some path }
      setStatus 0
      runText run false text
      if (← get).flow == .returning then setFlow .running
      return (← get).status

/-- Runs a program in place of the script. -/
def execCommand (run : Runs) : Builtin := fun words => do
  match words with
  | [] => return 0
  | name :: arguments =>
    let result ←
      match ← Act.findProgram name with
      | .error error => pure (.error error)
      | .ok (path, program) =>
        let traps := (← get).traps
        modify fun shell =>
          { shell with traps := shell.traps.filter fun (_, action) => action.isEmpty }
        let result ← execute run programDepth false path program arguments
        if result.toOption.isNone then modify fun shell => { shell with traps }
        pure result
    match result with
    | .ok status => setStatus status
    | .error error =>
      complain (name ++ ": ".toList ++ Act.openReason "not found" error)
      setStatus (failureStatus error)
    throw .exiting

/-- Runs a built-in command. Its errors end the script only if it is special. -/
def runBuiltin (special : Bool) (name : Raw) (builtin : Builtin) (arguments : List Raw) :
    Act Unit := do
  let outer := (← get).command
  modify fun shell => { shell with command := some name }
  let result ← attempt (builtin arguments)
  modify fun shell => { shell with command := outer }
  match result with
  | .ok status => setStatus status
  | .error .error => if special then throw .error
  | .error halt => throw halt

/-- Runs a built-in command by its name, if there is one. -/
def builtin? (run : Runs) (tested : Bool) (name : String) : Option Builtin :=
  match name with
  | "." => some (dotCommand run)
  | "eval" => some (evalCommand run tested)
  | "exec" => some (execCommand run)
  | "hash" => some hashCommand
  | "type" => some typeCommand
  | _ => plainBuiltin? name

/-- Runs the command that words name, with or without functions. -/
def runNamed (run : Runs) (tested functions : Bool) (special : Bool) (name : Raw)
    (arguments : List Raw) : Act Unit := do
  let known := String.ofList name
  let own := (← get).functions.lookup known
  match if functions then own else none with
  | some body => callFunction run tested body arguments
  | none =>
    match builtin? run tested known with
    | some builtin => runBuiltin (special && specialNames.contains known) name builtin arguments
    | none => setStatus (← runProgram run name arguments)

/-- The words behind those that say that a command is meant and no function, and how: whether
it is only looked up. -/
def commandWords : List Raw → List Raw × Option Bool
  | ['-', '-'] :: rest => (rest, none)
  | ['-', 'p'] :: rest => commandWords rest
  | ['-', 'v'] :: rest => (rest, some true)
  | ['-', 'V'] :: rest => (rest, some false)
  | words => (words, none)

/-- Runs a command by its words. -/
def runWords (run : Runs) (tested : Bool) (words : List Raw) : Act Unit := do
  match words with
  | [] => return
  | name :: arguments =>
    if name = "command".toList && ((← get).functions.lookup "command").isNone then
      match commandWords arguments with
      | ([], _) => setStatus 0
      | (word :: _, some short) => setStatus (← describe short word)
      | (name :: arguments, none) => runNamed run tested false false name arguments
    else runNamed run tested true true name arguments

/-! ### Simple commands -/

/-- Built-in commands whose words may set variables. -/
def settingNames : List String :=
  ["export", "local", "readonly"]

/-- Expands the words of a command. Where they set variables, their values are not split. -/
def expandCall (run : Runs) (words : List Word) : Act (List Raw) :=
  go none words
where
  go (first : Option String) : List Word → Act (List Raw)
    | [] => return []
    | word :: rest => do
      let single ←
        match first.filter settingNames.contains, setting? word with
        | some _, some (.mk name value) => do
          pure (some (name.toList ++ '=' :: (← expandText (capture run) value)))
        | _, _ => pure none
      let fields ←
        match single with
        | some field => pure [field]
        | none => expandFields (capture run) word
      let next :=
        match first with
        | none | some "command" => (fields.head?.map String.ofList).or first
        | some name => some name
      return fields ++ (← go next rest)

/-- Shows a command before it runs, where the script wants that. -/
def trace (settings : List (String × Raw)) (words : List Raw) : Act Unit := do
  let shell ← get
  if shell.switches.contains 'x' then
    let start := (← Act.valueOf? "PS4").getD "+ ".toList
    let shown := settings.map fun (name, value) => name.toList ++ '=' :: value
    Act.printError (start ++ Raw.join [' '] (shown ++ words))

/-- Sets variables one after another, and gives their values. -/
def setAll (run : Runs) (set : String → Raw → Act Unit) :
    List Setting → Act (List (String × Raw))
  | [] => return []
  | .mk name word :: rest => do
    let value ← expandText (capture run) word
    set name value
    return (name, value) :: (← setAll run set rest)

/-- Runs a simple command. -/
def runSimple (run : Runs) (tested : Bool) (line : Nat) (settings : List Setting)
    (words : List Word) (redirections : List Redirection) : Act Unit := do
  modify fun shell => { shell with line, captured := none }
  let words ← expandCall run words
  let name := String.ofList (words.headD [])
  let isFunction := ((← get).functions.lookup name).isSome
  let special := !isFunction && specialNames.contains name
  let set (name : String) (value : Raw) : Act Unit := Act.setVariable name.toList value
  let setForCommand (name : String) (value : Raw) : Act Unit := do
    Builtin.keepBinding name
    set name value
    let binding ← Act.binding? name
    Act.bind name (binding.map fun binding => { binding with exported := true })
  let failed : Act Unit := do
    setStatus 2
    if special then throw .error
  let errors := (← get).channels
  let shown (settings : List (String × Raw)) : Act Unit := do
    let channels := (← get).channels
    modify fun shell => { shell with channels := errors }
    trace settings words
    modify fun shell => { shell with channels }
  if words.isEmpty then
    Act.withChannels (capture run) redirections failed do
      shown (← setAll run set settings)
      setStatus ((← get).captured.getD 0)
  else if words = ["exec".toList] && !isFunction then
    let mut connections := []
    for .mk channel target in redirections do
      connections := connections ++ [(channel, ← target.expand (capture run))]
    shown (← setAll run set settings)
    for (channel, connection) in connections do
      Act.connect channel connection
    setStatus 0
  else
    Act.withChannels (capture run) redirections failed do
      if special then
        shown (← setAll run set settings)
        runWords run tested words
      else if settings.isEmpty then
        shown []
        runWords run tested words
      else withBindings do
        shown (← setAll run setForCommand settings)
        runWords run tested words

/-! ### Loops -/

/-- Says whether the loop at hand ends here, and takes note of it. -/
def leavesLoop : Act Bool := do
  match (← get).flow with
  | .running => return false
  | .returning => return true
  | .breaking levels =>
    setFlow (if levels ≤ 1 then .running else .breaking (levels - 1))
    return true
  | .continuing levels =>
    setFlow (if levels ≤ 1 then .running else .continuing (levels - 1))
    return levels > 1

/-- Runs commands for each of some values of a variable. -/
def runLoop (run : Runs) (tested : Bool) (name : String) (body : List Command) :
    List Raw → Act Unit
  | [] => return
  | value :: rest => do
    Act.setVariable name.toList value
    runAll run tested body
    if !(← leavesLoop) then runLoop run tested name body rest

/-- Runs commands over and over as long as others end as `success` says. The status is that
of the last round. -/
def runRepetition (run : Runs) (tested success : Bool) (test body : List Command)
    (fuel status : Nat) : Act Unit := do
  match fuel with
  | 0 => throw (.killed 9)
  | fuel + 1 =>
    runAll run true test
    if !(← isRunning) then
      let shell ← get
      let status := if shell.flow == .returning then shell.status else status
      if ← leavesLoop then setStatus status
      else runRepetition run tested success test body fuel status
    else if ((← get).status == 0) != success then setStatus status
    else
      runAll run tested body
      let status := (← get).status
      if !(← leavesLoop) then runRepetition run tested success test body fuel status

/-- More rounds than any loop has that ends. -/
def roundLimit : Nat := 1000000

/-- Takes a step with one more loop around it. -/
def inLoop (action : Act Unit) : Act Unit := do
  modify fun shell => { shell with loops := shell.loops + 1 }
  action
  modify fun shell => { shell with loops := shell.loops - 1 }

/-- The commands of the first branch with a pattern that a text matches. -/
def branchFor (run : Runs) (subject : Raw) : List Branch → Act (List Command)
  | [] => return []
  | .mk patterns body :: rest => do
    let mut found := false
    for pattern in patterns do
      if !found then
        found := isMatch (← expandPattern (capture run) pattern) subject
    if found then return body else branchFor run subject rest

/-! ### Commands -/

/-- Ends the script where it wants that at a failure that nothing asks about. -/
def checkStatus (tested : Bool) : Act Unit := do
  let shell ← get
  if shell.status ≠ 0 && !tested && shell.switches.contains 'e' && shell.flow == .running then
    throw .exiting

/-- Runs a command, given how the commands in it are run. -/
def step (run : Runs) : Runs := fun tested command => do
  match command with
  | .simple line settings words redirections =>
    runSimple run tested line settings words redirections
    checkStatus tested
  | .pipeline commands =>
    setStatus (← runPipeline run tested none commands)
    checkStatus tested
  | .negation command =>
    run true command
    setStatus (if (← get).status = 0 then 1 else 0)
  | .sequel success first second =>
    run true first
    if ← isRunning then
      if ((← get).status == 0) == success then run tested second
  | .background _ command =>
    let status ← apart run do
      Act.setChannel 0 (some (← Act.addStream .nothing))
      run false command
    modify fun shell => { shell with aside := some status }
    setStatus 0
  | .group body => runAll run tested body
  | .subshell line body =>
    modify fun shell => { shell with line }
    setStatus (← apart run (runAll run tested body))
    checkStatus tested
  | .loop line name words body =>
    modify fun shell => { shell with line }
    let arguments := (← get).arguments
    let values ←
      match words with
      | none => pure arguments
      | some words => expandWords (capture run) words
    setStatus 0
    inLoop (runLoop run tested name body values)
  | .repetition success test body =>
    inLoop (runRepetition run tested success test body roundLimit 0)
  | .choice line subject branches =>
    modify fun shell => { shell with line }
    let subject ← expandText (capture run) subject
    let body ← branchFor run subject branches
    if body.isEmpty then setStatus 0 else runAll run tested body
  | .condition test yes no =>
    runAll run true test
    if ← isRunning then
      if (← get).status = 0 then runAll run tested yes
      else if no.isEmpty then setStatus 0
      else runAll run tested no
  | .definition _ name body =>
    modify fun shell =>
      { shell with
        functions := (name, body) :: shell.functions.filter fun (other, _) => other ≠ name }
    setStatus 0
  | .redirected line command redirections =>
    modify fun shell => { shell with line }
    let isApart :=
      match command with
      | .subshell .. => true
      | _ => false
    Act.withChannels (capture run) redirections (do
      setStatus 2
      if isApart then checkStatus tested) (run tested command)
  runSignals run

/-- How deep commands may stand in each other. What goes deeper has no end. -/
def depthLimit : Nat := 3000

/-- Runs a command. `fuel` bounds the depth; the script is stopped where that is not enough. -/
def runCommand (fuel : Nat) (tested : Bool) (command : Command) : Act Unit :=
  match fuel with
  | 0 => throw (.killed 11)
  | fuel + 1 => step (runCommand fuel) tested command

/-! ### Scripts -/

/-- The state in which a program starts: nothing can be read, and only what is written for
errors is collected. -/
def Shell.start (files : FileTree) (folder : Path) (environment : List (String × Raw)) : Shell where
  bindings := environment.map fun (name, value) => (name, ⟨some value, true, false⟩)
  functions := []
  name := []
  arguments := []
  folder
  status := 0
  flow := .running
  switches := []
  streams := #[.nothing, .collected []]
  channels := [(0, 0), (1, 0), (2, 1)]
  files := systemFolders.foldl FileTree.addFolder files
  traps := []
  signals := []
  locals := []
  loops := 0
  line := 0
  linesRead := 0
  command := none
  aside := none
  made := 0
  optionIndex := 1
  optionPlace := 0
  before := none
  captured := none
  depth := 0
  apartness := 0
  doom := none
  aliases := []
  mask := 18

/-- The files without folders that are there on every system, as far as these were not among
the files before and hold nothing. -/
def withoutSystemFolders (before after : FileTree) : FileTree :=
  systemFolders.foldr
    (fun folder files =>
      let isUseful := (before.at? folder).isSome || !(files.namesIn folder).isEmpty
      if isUseful then files else files.remove folder)
    after

/-- Runs a program in a folder. It is looked up if its name is no path. -/
def runProgramIn (files : FileTree) (folder : Path) (environment : List (String × Raw))
    (name : Raw) (arguments : List Raw) : Except FileError Outcome :=
  let run : Runs := runCommand depthLimit
  let action : Act (Except FileError Nat) := do
    match ← Act.findProgram name with
    | .error error => return .error error
    | .ok (path, program) => execute run programDepth true path program arguments
  let (result, shell) : Except Halt (Except FileError Nat) × Shell :=
    action.run (Shell.start files folder environment)
  let outcome (ended : Ended) : Outcome :=
    let errors :=
      match shell.streams[1]? with
      | some (Stream.collected pieces) => pieces.reverse.flatten
      | _ => []
    ⟨ended, Raw.toString errors, withoutSystemFolders files shell.files⟩
  match result with
  | .ok (.ok status) => .ok (outcome (.status status))
  | .ok (.error error) => .error error
  | .error (.killed _) => .ok (outcome .signal)
  | .error _ => .ok (outcome (.status shell.status))

/-- The system on which all programs are scripts, or among those that scripts call. -/
def system : System where
  searchPath := String.ofList usualFolders
  launch files found folder program arguments :=
    if !files.isFolder folder then throw .notFound
    else
      runProgramIn files folder (found.map fun (name, value) => (name, Raw.ofString value))
        (Raw.ofString program.text) (arguments.map Raw.ofString)

end PomLens.Script
