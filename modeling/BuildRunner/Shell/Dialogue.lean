import BuildRunner.Disk.Basic
import BuildRunner.Shell.Command

/-!
# Dialogues with the system

A program that runs is a dialogue: it asks the system for something, and goes on with the answer,
until it ends with a status.  What the requests do is not said here; a program may have to wait for
an answer while others go on.
-/

namespace BuildRunner.Shell

open BuildRunner.Text (Bytes)

/-- What a stream number stands for. -/
inductive Stream
  | null
  | directory
  /-- An open file of the disk. -/
  | file (index : Nat) (reads writes : Bool)
  /-- An end of a pipe. -/
  | pipe (number : Nat) (writes : Bool)
deriving DecidableEq, Repr, Inhabited

/-- The numbers from here on are for streams that a shell has put aside. -/
def firstSaved : Nat := 10

/-- What a program does when a signal reaches it. -/
inductive Reaction
  | usual
  | ignores
  /-- The program takes note of the signal. -/
  | notes
deriving DecidableEq, Repr, Inhabited

/-- What waiting for a child led to. -/
inductive Awaited
  /-- The exit code of a child, or a signal below zero. -/
  | child (id : Nat) (result : Int)
  | noChild
  | interrupted
deriving DecidableEq, Repr, Inhabited

inductive Request
  /-- Nothing is wanted; others may go on. -/
  | pause
  | disk
  | change (f : Disk → Except Errno Disk)
  | openFile (mode : OpenMode) (path : String)
  /-- A new pipe, filled with some bytes. -/
  | pipe (contents : Bytes)
  | stream (number : Nat)
  /-- Makes a number stand for a stream, or for none. -/
  | connect (number : Nat) (stream : Option Stream)
  | read (number count : Nat)
  | write (number : Nat) (bytes : Bytes)
  /-- The program is split in two; the answer is the number of the second half, which itself gets
  none. -/
  | fork
  /-- Waits for a child; a signal that is noted may end the wait. -/
  | awaitChild (interruptible : Bool)
  | identity
  | signal (target : Int) (number : Nat)
  /-- The signals that are ignored. -/
  | ignored
  | react (signal : Nat) (reaction : Reaction)
  /-- The signals that were noted since the last question. -/
  | noted
  | sleep (milliseconds : Nat)
  /-- The program is replaced by another one, which inherits its streams. -/
  | replace

/-- What a request is answered with. -/
abbrev Request.Answer : Request → Type
  | .pause => Unit
  | .disk => Disk
  | .change _ => Except Errno Unit
  | .openFile .. => Except Errno Stream
  | .pipe _ => Nat
  | .stream _ => Option Stream
  | .connect .. => Unit
  | .read .. => Except Errno Bytes
  | .write .. => Except Errno Unit
  | .fork => Option Nat
  | .awaitChild _ => Awaited
  | .identity => Nat
  | .signal .. => Except Errno Unit
  | .ignored => List Nat
  | .react .. => Unit
  | .noted => List Nat
  | .sleep _ => Unit
  | .replace => Unit

inductive Dialogue (α : Type)
  | done (a : α)
  /-- The program ends, whatever was to follow. -/
  | exit (status : Nat)
  | ask (request : Request) (next : request.Answer → Dialogue α)

namespace Dialogue

def bind {α β : Type} (f : α → Dialogue β) : Dialogue α → Dialogue β
  | done a => f a
  | exit status => exit status
  | ask request next => ask request fun answer => (next answer).bind f

instance : Monad Dialogue where
  pure := done
  bind dialogue f := dialogue.bind f

instance {α : Type} : Inhabited (Dialogue α) := ⟨exit 0⟩

/-- Asks for one thing. -/
def request (r : Request) : Dialogue r.Answer := ask r done

theorem done_bind {α β : Type} (a : α) (f : α → Dialogue β) : (done a).bind f = f a := rfl

theorem bind_done {α : Type} (dialogue : Dialogue α) : dialogue.bind done = dialogue := by
  induction dialogue with
  | done a => rfl
  | exit status => rfl
  | ask r next ih => exact congrArg (ask r) (funext ih)

theorem bind_assoc {α β γ : Type} (dialogue : Dialogue α) (f : α → Dialogue β)
    (g : β → Dialogue γ) : (dialogue.bind f).bind g = dialogue.bind fun a => (f a).bind g := by
  induction dialogue with
  | done a => rfl
  | exit status => rfl
  | ask r next ih => exact congrArg (ask r) (funext ih)

end Dialogue

end BuildRunner.Shell
