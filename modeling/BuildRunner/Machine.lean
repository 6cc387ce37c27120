import BuildRunner.Console.Layout
import BuildRunner.Console.Markup
import BuildRunner.Disk.Move
import BuildRunner.Handle
import BuildRunner.Repetition
import BuildRunner.Settings

/-!
# The machine that builds run on

A machine has a disk, an environment, the programs that were started, and a clock that counts
milliseconds.  What a program does is left open: it can be loaded, it is given its turn at every
tick of the clock, and it can be asked for its status.  An `Act` is an action on a machine that may
fail; what it changed before it failed stays changed.
-/

namespace BuildRunner

/-- Programs of the type `κ`. -/
class Program (κ : Type) where
  /-- Starts a program in the current directory, with its arguments, on open files for its two
  outputs; the first argument names the program. -/
  load : Disk → Environment → List String → (out err : Option Nat) → Except Errno (Disk × κ)
  /-- A turn of a program at a time of the clock. -/
  advance : Nat → Disk → κ → Disk × κ
  answer : κ → Answer

structure Machine (κ : Type) where
  disk : Disk
  environment : Environment
  /-- The directory that `cd -` returns to. -/
  previous : Option String := none
  programs : List κ := []
  clock : Nat := 0
  handles : List Handle := []
  /-- The open files that were opened for programs and are not closed yet. -/
  held : List Nat := []
  /-- The handles that were asked to close, in their order. -/
  closings : List Nat := []
  /-- Whether the action runs as a cooperative task. -/
  inTask : Bool := false
  /-- What was written to the console and to its error output. -/
  out : String := ""
  err : String := ""
  /-- What tasks have logged. -/
  trace : List String := []
  /-- The number of scratch names given out. -/
  scratch : Nat := 0

abbrev Act (κ : Type) := ExceptT Failure (StateM (Machine κ))

namespace Act

variable {κ : Type}

/-- An action on the disk of the machine. -/
def onDisk {α : Type} (action : DiskM α) : Act κ α := do
  let machine ← get
  let (result, disk) := action.run machine.disk
  set { machine with disk }
  match result with
  | .ok a => pure a
  | .error failure => throw failure

/-- Runs the second action whether or not the first one fails. -/
def ensuring {α : Type} (action : Act κ α) (final : Act κ Unit) : Act κ α := do
  let result ← try Except.ok <$> action catch failure => pure (Except.error failure)
  final
  match result with
  | .ok a => pure a
  | .error failure => throw failure

/-- Writes a text to the console as it is. -/
def write (text : String) : Act κ Unit :=
  modify fun m => { m with out := m.out ++ Console.shown text }

/-- Writes a text to the error output of the console as it is. -/
def writeErr (text : String) : Act κ Unit :=
  modify fun m => { m with err := m.err ++ Console.shown text }

/-- What a marked-up line shows. -/
def shownLine (markup : String) : Act κ String :=
  match Console.plain markup with
  | .ok text => pure (Console.shown text ++ "\n")
  | .error fault => throw (.badMarkup fault)

/-- Writes a marked-up line to the console. -/
def print (markup : String) : Act κ Unit := do
  let line ← shownLine markup
  modify fun m => { m with out := m.out ++ line }

/-- Writes a marked-up line to the error output of the console. -/
def printErr (markup : String) : Act κ Unit := do
  let line ← shownLine markup
  modify fun m => { m with err := m.err ++ line }

/-- A remark on the error output. -/
def remark (markup : String) : Act κ Unit := printErr ("[dim]buildos: " ++ markup ++ "[/dim]")

def verbose : Act κ Bool := do return asksForTrace (← get).environment

def settings : Act κ Settings := do
  match Settings.read (← get).environment with
  | .ok settings => pure settings
  | .error failure => throw failure

/-- The path of the current directory. -/
def currentPath : Act κ String := onDisk DiskM.currentPath

end Act

namespace Machine

variable {κ : Type} [Program κ]

/-- The machine after the program of an index has had its turn. -/
def advanceOne (m : Machine κ) (index : Nat) : Machine κ :=
  match m.programs[index]? with
  | none => m
  | some program =>
    let (disk, program) := Program.advance m.clock m.disk program
    { m with disk, programs := m.programs.set index program }

/-- One tick of the clock: every program has its turn, in the order in which they were started. -/
def tick (m : Machine κ) : Machine κ :=
  (List.range m.programs.length).foldl advanceOne { m with clock := m.clock + 1 }

/-- The machine after a number of ticks. -/
def elapse : Nat → Machine κ → Machine κ
  | 0, m => m
  | n + 1, m => elapse n m.tick

/-- The answer of the program of an index. -/
def answerOf (m : Machine κ) (index : Nat) : Answer :=
  (m.programs[index]?).elim .running Program.answer

/-- The machine once a program no longer answers that it is running, or after a number of
ticks. -/
def await (index : Nat) : (ticks : Nat) → Machine κ → Machine κ
  | 0, m => m
  | ticks + 1, m => if m.answerOf index = .running then await index ticks m.tick else m

/-- The machine once a program no longer answers that it is running; none if it runs forever. -/
def awaitEnd (index : Nat) (m : Machine κ) : Option (Machine κ) :=
  repeatUntil (fun m => m.answerOf index ≠ .running) tick m

end Machine

end BuildRunner
