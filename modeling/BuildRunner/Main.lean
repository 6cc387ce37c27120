import BuildRunner.CommandLine.Run
import BuildRunner.Disk.Archive
import BuildRunner.Shell.Host

/-!
# The command line

Commands work on a host that is kept in memory.  Its working directory is kept between two commands
in the archive that the variable `BUILDOS_ARCHIVE` names; without one it starts empty.
-/

namespace BuildRunner

/-- The working directory of the host. -/
def workingDirectory : String := "/work"

/-- The variables that are passed on to the host. -/
def inherited : List String := [tmpdirVariable, intervalVariable, verboseVariable]

/-- The action of a command line on a host that holds the entries of an archive. -/
def session (entries : List Entry) (line : List String) : Shell.HostAct Exit := do
  Act.onDisk (Shell.settle workingDirectory entries)
  Act.commandLine line

/-- The status that a command line exits with. -/
def Exit.status : Exit → UInt32
  | .code n => (n % 256).toNat.toUInt32
  | .misuse => 2

end BuildRunner

open BuildRunner in
def main (line : List String) : IO UInt32 := do
  let mut environment : Environment := [("PATH", Shell.hostPath)]
  for name in inherited do
    environment := environment.update name (← IO.getEnv name)
  let archive ← IO.getEnv "BUILDOS_ARCHIVE"
  let text ← match archive with
    | some file => try IO.FS.readFile file catch _ => pure ""
    | none => pure ""
  match Archive.read? text with
  | none =>
    IO.eprintln "the archive cannot be read"
    return 2
  | some entries =>
    let (result, m) := (session entries line).run (Shell.host environment)
    IO.print m.out
    IO.eprint m.err
    if let some file := archive then
      IO.FS.writeFile file (Archive.write ((m.disk.inventory workingDirectory).getD []))
    match result with
    | .ok exit =>
      if exit = .misuse then IO.eprintln helpText
      return exit.status
    | .error failure =>
      IO.eprintln failure.message
      return 1
