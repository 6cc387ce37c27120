import BuildRunner.Shell.Session
import BuildRunner.Shell.Signal

/-!
# Children of a shell

A command that has a process of its own is run by a child.  The children of one command are waited
for together; the status is that of the last one.
-/

namespace BuildRunner.Shell

namespace Script

/-- The status of a result of a child. -/
def statusOf (result : Int) : Nat := if result < 0 then 128 + result.natAbs else result.toNat

/-- Tells that a child has died by a signal, unless that is nothing to be told. -/
def tellDeath (result : Int) : Script Unit := do
  let signal := result.natAbs
  if result < 0 && signal != Signal.interrupt && signal != Signal.pipe then
    say 2 (Signal.wording signal ++ "\n")

/-- Notes the result of a child. -/
def noteResult (id : Nat) (result : Int) : Script Unit :=
  modify fun s => { s with results := (id, result) :: s.results }

/-- The result of a child, once it is known. -/
def result? (id : Nat) : Script (Option Int) := do return (← get).results.lookup id

/-- What waiting led to. -/
inductive Waited
  | ended
  | interrupted
deriving DecidableEq, Repr, Inhabited

/-- Waits until the results of some children are known, or no child is left. -/
def await (interruptible tells : Bool) : (fuel : Nat) → List Nat → Script Waited
  | 0, _ => return .ended
  | fuel + 1, ids => do
    let known := (← get).results.map Prod.fst
    if ids.all known.contains then return .ended
    match ← ask (.awaitChild interruptible) with
    | .child id result =>
      noteResult id result
      if tells && ids.contains id then tellDeath result
      await interruptible tells fuel ids
    | .noChild => return .ended
    | .interrupted =>
      if interruptible then return .interrupted else await interruptible tells fuel ids

/-- A bound for the number of children. -/
def childLimit : Nat := 0x40000000

/-- The status of a batch that has ended. -/
def batchStatus (ids : List Nat) : Script Nat := do
  match ids.getLast? with
  | none => return (← get).status
  | some id => return (((← result? id).map statusOf).getD (← get).status)

/-- Waits for a batch in the foreground. -/
def awaitBatch (ids : List Nat) : Script Nat := do
  discard (await false true childLimit ids)
  batchStatus ids

/-- The children that were left running. -/
def addBatch (ids : List Nat) : Script Unit :=
  modify fun s => { s with
    batches := s.batches ++ [ids]
    lastInBackground := ids.getLast? <|> s.lastInBackground }

end Script

end BuildRunner.Shell
