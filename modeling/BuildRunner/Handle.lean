import BuildRunner.Failure

/-!
# Process handles

A handle stands for a started program.  Asking for its status consumes an answer of the program, and
closing it, which is possible once, releases the open files that it owns.  Asking or closing
afterwards is refused and changes nothing.
-/

namespace BuildRunner

/-- What a program answers when asked for its status. -/
inductive Answer
  /-- The exit code, or the number of the signal that killed the program below zero. -/
  | exited (code : Int)
  | running
  /-- The system refused the question. -/
  | refused (text : String)
  | broken (text : String)
deriving DecidableEq, Repr, Inhabited

/-- Where the answers of a handle come from. -/
inductive Source
  /-- A program that runs on the machine. -/
  | program (index : Nat)
  /-- A fixed list of answers. -/
  | script (answers : List Answer)
deriving DecidableEq, Repr, Inhabited

inductive Outcome
  | done
  | pending
  | failed
deriving DecidableEq, Repr, Inhabited

def Outcome.code : Outcome → Int
  | .done => 1
  | .pending => 0
  | .failed => -1

/-- The outcome of a wait, and the exit status where there is one. -/
structure WaitResult where
  outcome : Outcome
  status : Option Int
deriving DecidableEq, Repr, Inhabited

/-- How long a wait lasts. -/
inductive Patience
  | forever
  /-- Ask once. -/
  | poll
  /-- Wait for a number of milliseconds. -/
  | upTo (milliseconds : Nat)
deriving DecidableEq, Repr, Inhabited

/-- A patience of `numerator / denominator` seconds; a negative one is unlimited. -/
def Patience.ofSeconds (numerator : Int) (denominator : Nat) : Patience :=
  if numerator < 0 then .forever
  else if numerator = 0 then .poll
  else .upTo ((numerator.toNat * 1000 + denominator - 1) / denominator)

structure Handle where
  program : String
  source : Source
  /-- The indices of the open files that closing the handle closes. -/
  owned : List Nat
  closed : Bool := false
deriving DecidableEq, Repr, Inhabited

namespace Handle

/-- The handle without the answer that it gives next, and that answer; `now` is the answer of the
running program. -/
def consume (now : Answer) (handle : Handle) : Handle × Answer :=
  match handle.source with
  | .program _ => (handle, now)
  | .script [] => (handle, .running)
  | .script (answer :: rest) => ({ handle with source := .script rest }, answer)

/-- The closed handle and the open files that are to be closed. -/
def close (handle : Handle) : Except Failure (Handle × List Nat) :=
  if handle.closed then .error (.alreadyClosed handle.program)
  else .ok ({ handle with closed := true, owned := [] }, handle.owned)

/-- A handle as messages show it; scripted programs have the number zero. -/
def shown (handle : Handle) : String :=
  "<Process " ++ Text.quoted handle.program ++ " pid=0>"

end Handle

/-- What an exit code means for a wait. -/
def WaitResult.ofCode (code : Int) : WaitResult :=
  if code < 0 then ⟨.failed, some code⟩ else ⟨.done, some code⟩

/-- A wait that ended without a status. -/
def WaitResult.unusable : WaitResult := ⟨.failed, none⟩

/-- The exit code of a run that could not be started or waited for. -/
def failureCode : Int := -1

/-- The exit code that the outcome of a wait amounts to. -/
def exitCode (outcome : Int) (status : Option Int) : Int :=
  if outcome = Outcome.done.code then status.getD failureCode else failureCode

def WaitResult.exitCode (result : WaitResult) : Int :=
  BuildRunner.exitCode result.outcome.code result.status

end BuildRunner
