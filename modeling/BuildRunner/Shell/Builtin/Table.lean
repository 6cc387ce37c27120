import BuildRunner.Shell.Builtin.Control
import BuildRunner.Shell.Builtin.Directory
import BuildRunner.Shell.Builtin.Names
import BuildRunner.Shell.Builtin.Output
import BuildRunner.Shell.Builtin.Signals
import BuildRunner.Shell.Builtin.Variables

/-!
# The commands of the shell

The commands that run no other commands, by their names.
-/

namespace BuildRunner.Shell

namespace Script

def runCommand (name : String) (arguments : List String) : Script Nat :=
  match name with
  | ":" | "true" => return 0
  | "false" => return 1
  | "[" | "test" => testCommand name arguments
  | "alias" => aliasCommand arguments
  | "bg" | "fg" => jobControlCommand arguments
  | "break" => leaveLoops false arguments
  | "cd" | "chdir" => cdCommand arguments
  | "command" => commandCommand arguments
  | "continue" => leaveLoops true arguments
  | "echo" => echoCommand arguments
  | "exit" => exitCommand arguments
  | "export" => exportCommand arguments
  | "getopts" => getoptsCommand arguments
  | "hash" => hashCommand arguments
  | "kill" => killCommand arguments
  | "local" => localCommand arguments
  | "printf" => printfCommand arguments
  | "pwd" => pwdCommand arguments
  | "read" => readCommand arguments
  | "readonly" => readonlyCommand arguments
  | "return" => returnCommand arguments
  | "set" => setCommand arguments
  | "shift" => shiftCommand arguments
  | "times" => timesCommand
  | "trap" => trapCommand arguments
  | "type" => typeCommand arguments
  | "ulimit" => ulimitCommand arguments
  | "umask" => umaskCommand arguments
  | "unalias" => unaliasCommand arguments
  | "unset" => unsetCommand arguments
  | "wait" => waitCommand arguments
  | _ => return 0

end Script

end BuildRunner.Shell
