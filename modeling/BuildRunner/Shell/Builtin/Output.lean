import BuildRunner.Shell.Builtin.Options
import BuildRunner.Shell.Printf
import BuildRunner.Shell.Test

/-!
# Commands that write and decide

The commands of the shell that write texts, and those that decide conditions.
-/

namespace BuildRunner.Shell

namespace Script

def echoCommand (arguments : List String) : Script Nat := do
  let (endsLine, words) := match arguments with
    | "-n" :: rest => (false, rest)
    | words => (true, words)
  let written := unescaped false (String.intercalate " " words).toList
  out (written.text ++ if endsLine && !written.stopped then "\n" else "")
  return 0

/-- What a complaint says about a fault of a format. -/
def wordingOf : FormatFault → List String
  | .notNumeric argument => [argument, ": expected numeric value"]
  | .partlyNumeric argument => [argument, ": not completely converted"]
  | .outOfRange argument => [argument, ": Numerical result out of range"]
  | .badDirective directive => [directive, ": invalid directive"]
  | _ => ["missing format character"]

def printfCommand (arguments : List String) : Script Nat := do
  match ← operands arguments with
  | [] => fault ["usage: printf format [arg ...]"]
  | format :: arguments =>
    let (written, _) := formatted false format arguments
    out written.text
    written.faults.forM fun (_, f) => do
      if f.isFatal then fault (wordingOf f) else complain (wordingOf f)
    return if written.faults.isEmpty then 0 else 1

/-- Decides a condition, for `test`, and for `[` behind whose words a bracket stands. -/
def testCommand (name : String) (arguments : List String) : Script Nat := do
  let d ← ask .disk
  let outcome : Except String Bool :=
    if name = "[" then
      if arguments.getLast? = some "]" then test d arguments.dropLast else .error "missing ]"
    else test d arguments
  match outcome with
  | .ok holds => return if holds then 0 else 1
  | .error message => fault [message]

end Script

end BuildRunner.Shell
