import BuildRunner.Disk.Entry
import BuildRunner.Shell.Invocation
import BuildRunner.Shell.Process

/-!
# Hosts

A host is a machine whose programs are the tools and scripts of this library.  It has the tools in
`/usr/bin`, and a working directory that is made for it.
-/

namespace BuildRunner.Shell

/-- The process of a program with its arguments, on open files for its outputs.  It starts in the
current directory. -/
def Process.start (d : Disk) (environment : Environment) (arguments : List String)
    (out err : Option Nat) : Except Errno (Disk × Process) := do
  let narrowed := environment.map fun (name, value) => (narrow name, narrow value)
  let call ← findCall d environment (arguments.map narrow)
  let output (index : Option Nat) : Stream := index.elim .null fun i => .file i false true
  let thread : Thread :=
    { id := firstNumber
      parent := none
      place := d.away.length
      streams := [(0, .null), (1, output out), (2, output err)]
      dialogue := programs call narrowed }
  let process : Process :=
    { threads := [thread], nextId := firstNumber + 1, first := firstNumber }
  .ok ({ d with away := d.away ++ [d.cwd] }, process)

instance : Program Process where
  load := Process.start
  advance now d p := p.turn now Process.roundsPerTurn d
  answer := Process.answer

abbrev Host := Machine Process

abbrev HostAct := Act Process

/-- A directory with its entries. -/
def directory (entries : List (String × Node)) : Node := .dir entries none

/-- The names of the programs of a host. -/
def programNames : List String :=
  ["cat", "echo", "false", "printf", "pwd", "rm", "sh", "sleep", "touch", "true"]

/-- The tree of a host before its working directory is made. -/
def hostTree : Node :=
  directory [
    ("bin", .link "usr/bin"),
    ("dev", directory [("null", .null)]),
    ("tmp", .empty),
    ("usr", directory [
      ("bin", directory (programNames.map fun name => (name, .file (toolImage name) true none))),
      ("local", directory [("bin", .empty)])])]

/-- The search path of a host. -/
def hostPath : String := "/usr/local/bin:/usr/bin:/bin"

/-- A host with an environment. -/
def host (environment : Environment) : Host :=
  { disk := { tree := hostTree, cwd := Place.root }, environment }

/-- Makes a working directory with some entries, and enters it. -/
def settle (directory : String) (entries : List Entry) : DiskM Unit := do
  DiskM.makeDirectories true directory
  DiskM.makeEntries directory entries
  DiskM.change directory fun d => d.changeDirectory directory

end BuildRunner.Shell
