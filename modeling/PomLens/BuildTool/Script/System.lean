/-
This file says what a script finds on every system besides the files at hand: programs in
folders of their own, devices, and signals.
-/

import PomLens.BuildTool.Script.Shell

namespace PomLens.Script

/-! ### Programs -/

/-- The names of the programs that are always there. -/
def programNames : List String :=
  ["[", "awk", "basename", "bash", "cat", "chmod", "cmp", "comm", "cp", "cut", "dash", "diff",
    "dirname", "echo", "egrep", "env", "expr", "false", "fgrep", "find", "fold", "grep", "head",
    "hostname", "id", "kill", "ln", "ls", "mawk", "mkdir", "mktemp", "mv", "nice", "nl", "nohup",
    "nproc", "paste", "printenv", "printf", "pwd", "readlink", "realpath", "rev", "rm", "rmdir",
    "sed", "seq", "sh", "sleep", "sort", "sync", "tac", "tail", "tee", "test", "timeout", "touch",
    "tr", "true", "tty", "uname", "uniq", "wc", "which", "whoami", "xargs", "yes"]

/-- The folders of these programs, in the order in which they are looked through. -/
def programFolders : List String :=
  ["/usr/bin", "/bin"]

/-- The folders in which a script looks for programs if it says nothing else. -/
def usualFolders : Raw :=
  "/usr/local/sbin:/usr/local/bin:/usr/sbin:/usr/bin:/sbin:/bin".toList

/-- The program that a path names. -/
def programAt? (path : Raw) : Option String :=
  let name := String.ofList (path.reverse.takeWhile (· != '/')).reverse
  let isThere := programFolders.any fun folder => (folder ++ "/" ++ name).toList == path
  if isThere && programNames.contains name then some name else none

/-- The folders that are there on every system. -/
def systemFolders : List FileLocation :=
  [["bin"], ["dev"], ["etc"], ["home"], ["opt"], ["proc"], ["root"], ["sbin"], ["tmp"], ["usr"],
    ["usr", "bin"], ["usr", "lib"], ["usr", "local"], ["usr", "local", "bin"], ["usr", "sbin"],
    ["usr", "share"], ["var"], ["var", "tmp"]]

/-! ### Devices -/

inductive Device
  /-- Takes everything and gives nothing. -/
  | nothing
  /-- What a channel leads to. -/
  | channel (number : Nat)
  deriving DecidableEq, Repr

/-- The device that a path names. -/
def device? (path : Raw) : Option Device :=
  match String.ofList path with
  | "/dev/null" => some .nothing
  | "/dev/stdin" | "/dev/fd/0" | "/proc/self/fd/0" => some (.channel 0)
  | "/dev/stdout" | "/dev/fd/1" | "/proc/self/fd/1" => some (.channel 1)
  | "/dev/stderr" | "/dev/fd/2" | "/proc/self/fd/2" => some (.channel 2)
  | "/dev/fd/3" => some (.channel 3)
  | _ => none

/-! ### Questions about files -/

/-- The answer to a question about a file, asked by a letter. All files may be read and
written, and there are no links. -/
def inquire (shell : Shell) (letter : Char) (name : Raw) : Bool :=
  let isDevice := (device? name).isSome
  let isProgram := (programAt? name).isSome
  let entry := if name.isEmpty then none else shell.files.entry? (shell.folder.join ⟨Raw.toString name⟩)
  let there := isDevice || isProgram || entry.isSome
  match letter with
  | 'e' | 'a' | 'r' | 'w' | 'O' | 'G' => there
  | 'f' => isProgram || entry.any FileEntry.isFile
  | 'd' => entry == some .folder
  | 's' =>
    isProgram ||
      (match entry with
      | some (.file content _) => content != ""
      | some (.data bytes _) => !bytes.isEmpty
      | some .folder => true
      | none => false)
  | 'x' =>
    isProgram ||
      (match entry with
      | some (.file _ executable) | some (.data _ executable) => executable
      | some .folder => true
      | none => false)
  | 'c' => isDevice
  | _ => false

/-! ### Signals -/

/-- The names of signals by their numbers. The first one stands for the end of the script. -/
def signalNames : List String :=
  ["EXIT", "HUP", "INT", "QUIT", "ILL", "TRAP", "ABRT", "BUS", "FPE", "KILL", "USR1", "SEGV",
    "USR2", "PIPE", "ALRM", "TERM", "STKFLT", "CHLD", "CONT", "STOP", "TSTP", "TTIN", "TTOU",
    "URG", "XCPU", "XFSZ", "VTALRM", "PROF", "WINCH", "POLL", "PWR", "SYS"]

/-- The number of a signal that a word names. -/
def signal? (word : Raw) : Option Nat :=
  match Raw.nat? word with
  | some number => if number < 65 then some number else none
  | none => signalNames.findIdx? fun name => name.toList == word.map Char.toUpper

/-- The name of a signal. -/
def signalName (signal : Nat) : String :=
  (signalNames[signal]?).getD (toString signal)

/-- Signals that nobody notices who has not asked for them. -/
def quietSignals : List Nat :=
  [17, 18, 23, 28]

/-- The words that a command shell writes when a signal has stopped a program. Some signals
are passed over in silence. -/
def signalText? (signal : Nat) : Option String :=
  match signal with
  | 1 => some "Hangup"
  | 3 => some "Quit"
  | 4 => some "Illegal instruction"
  | 6 => some "Aborted"
  | 7 => some "Bus error"
  | 8 => some "Floating point exception"
  | 9 => some "Killed"
  | 10 => some "User defined signal 1"
  | 11 => some "Segmentation fault"
  | 12 => some "User defined signal 2"
  | 14 => some "Alarm clock"
  | 15 => some "Terminated"
  | _ => none

namespace Act

/-- Lets a signal come to the script. -/
def receive (signal : Nat) : Act Unit := do
  if signal = 0 || quietSignals.contains signal then return
  match (← get).traps.lookup (signalName signal), signal with
  | some [], _ => return
  | some _, 9 | none, _ =>
    if (← get).apartness = 0 then throw (.killed signal)
    else modify fun shell => { shell with doom := shell.doom.or (some signal) }
  | some _, _ => modify fun shell => { shell with signals := shell.signals ++ [signal] }

end Act

end PomLens.Script
