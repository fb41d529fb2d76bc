/-
This file lists the utilities by their names.
-/

import PomLens.BuildTool.Script.Builtin.Control
import PomLens.BuildTool.Script.Builtin.Settings
import PomLens.BuildTool.Script.Utility.Editor
import PomLens.BuildTool.Script.Utility.Expression
import PomLens.BuildTool.Script.Utility.Fields
import PomLens.BuildTool.Script.Utility.Files
import PomLens.BuildTool.Script.Utility.Finder
import PomLens.BuildTool.Script.Utility.Nested
import PomLens.BuildTool.Script.Utility.Records.Run
import PomLens.BuildTool.Script.Utility.Search

namespace PomLens.Script.Utility

/-- The utility with a name. Some of them run other programs. -/
def known? (invoke : Invoke) (name : String) : Option Utility :=
  match name with
  | "[" => some (ofBuiltin "[" Builtin.bracket)
  | "awk" | "mawk" => some (awk invoke)
  | "basename" => some basename
  | "cat" => some cat
  | "chmod" => some chmod
  | "cmp" => some cmp
  | "comm" => some comm
  | "cp" => some cp
  | "cut" => some cut
  | "dirname" => some dirname
  | "echo" => some echo
  | "egrep" => some (search (some 'E'))
  | "env" => some (env invoke)
  | "expr" => some Expression.expr
  | "false" => some (always 1)
  | "fgrep" => some (search (some 'F'))
  | "find" => some (Finder.find invoke)
  | "fold" => some fold
  | "grep" => some (search none)
  | "head" => some head
  | "hostname" => some (line "localhost")
  | "id" => some id
  | "kill" => some (ofBuiltin "kill" Builtin.kill)
  | "ln" => some ln
  | "ls" => some ls
  | "mkdir" => some mkdir
  | "mktemp" => some mktemp
  | "mv" => some mv
  | "nice" => some (nice invoke)
  | "nl" => some nl
  | "nohup" => some (nohup invoke)
  | "nproc" => some (line "1")
  | "paste" => some paste
  | "printenv" => some printenv
  | "printf" => some (ofBuiltin "printf" Builtin.printf)
  | "pwd" => some (ofBuiltin "pwd" Builtin.pwd)
  | "readlink" => some (realpath "readlink")
  | "realpath" => some (realpath "realpath")
  | "rev" => some rev
  | "rm" => some rm
  | "rmdir" => some rmdir
  | "sed" => some LineEdit.edit
  | "seq" => some seq
  | "sleep" => some sleep
  | "sort" => some sort
  | "sync" => some (always 0)
  | "tac" => some tac
  | "tail" => some tail
  | "tee" => some tee
  | "test" => some (ofBuiltin "test" Builtin.test)
  | "timeout" => some (timeout invoke)
  | "touch" => some touch
  | "tr" => some tr
  | "true" => some (always 0)
  | "tty" => some tty
  | "uname" => some uname
  | "uniq" => some uniq
  | "wc" => some wc
  | "which" => some which
  | "whoami" => some (line "root")
  | "xargs" => some (xargs invoke)
  | "yes" => some yes
  | _ => none

end PomLens.Script.Utility
