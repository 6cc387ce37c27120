import BuildRunner.Repetition
import BuildRunner.Schedule.Pool

/-!
# The event loop

The loop resumes tasks in rounds.  A round takes the entries that were queued before it, in order;
what they queue belongs to the next round.  A task that suspends without delay is queued at once,
any other when its time has come.  The first failure of a task is reported, the report wakes the
caller, and the caller stops the loop: each of these is an entry of its own, so that the other tasks
go on for three more rounds before they are cancelled.
-/

namespace BuildRunner.Schedule

inductive Entry
  /-- Resumes a task. -/
  | task (index : Nat)
  /-- Resumes a task that has suspended without delay. -/
  | again (index : Nat)
  /-- Tells the caller that a task has finished. -/
  | report (index : Nat)
  | wake
  | stop
deriving DecidableEq, Repr

/-- The clock of a state. -/
structure Clock (σ : Type) where
  now : σ → Nat
  /-- Lets a number of milliseconds pass. -/
  elapse : Nat → σ → σ

structure Loop (τ ρ ε : Type) where
  pool : Pool τ ρ ε
  /-- The rest of the round. -/
  round : List Entry := []
  /-- The entries of the next round. -/
  queue : List Entry := []
  /-- The tasks that wait for their time, the earliest first. -/
  timers : List (Nat × Nat) := []
  failure : Option ε := none
  /-- Whether the loop ends with this round. -/
  stopping : Bool := false

namespace Loop

variable {σ τ ρ ε : Type}

def ofPool (pool : Pool τ ρ ε) : Loop τ ρ ε :=
  { pool, queue := (List.range pool.tasks.length).map .task }

/-- Adds a timer behind those that are due no later. -/
def addTimer (time index : Nat) : List (Nat × Nat) → List (Nat × Nat)
  | [] => [(time, index)]
  | timer :: rest =>
    if timer.1 ≤ time then timer :: addTimer time index rest else (time, index) :: timer :: rest

/-- The loop after one of the consequences of a turn. -/
def note (now : Nat) (loop : Loop τ ρ ε) : Wake → Loop τ ρ ε
  | .granted index => { loop with queue := loop.queue ++ [.task index] }
  | .finished index => { loop with queue := loop.queue ++ [.report index] }
  | .paused _ none => loop
  | .paused index (some 0) => { loop with queue := loop.queue ++ [.again index] }
  | .paused index (some delay) =>
    { loop with timers := addTimer (now + delay) index loop.timers }

/-- Resumes a task. -/
def resume (routine : Coroutine σ τ ρ ε) (clock : Clock σ) (index : Nat) (loop : Loop τ ρ ε)
    (s : σ) : Loop τ ρ ε × σ :=
  let (pool, s, wakes) := loop.pool.resume routine index s
  (wakes.foldl (note (clock.now s)) { loop with pool }, s)

/-- Takes one entry of the round. -/
def take (routine : Coroutine σ τ ρ ε) (clock : Clock σ) (entry : Entry) (loop : Loop τ ρ ε)
    (s : σ) : Loop τ ρ ε × σ :=
  match entry with
  | .task index | .again index => loop.resume routine clock index s
  | .report index =>
    match loop.failure, loop.pool.failureOf index with
    | none, some failure =>
      ({ loop with failure := some failure, queue := loop.queue ++ [.wake] }, s)
    | _, _ => (loop, s)
  | .wake => ({ loop with queue := loop.queue ++ [.stop] }, s)
  | .stop => ({ loop with stopping := true }, s)

def isAgain : Entry → Bool
  | .again _ => true
  | _ => false

/-- Begins the next round.  Time passes if there is nothing else to do, or if some task has
suspended without delay. -/
def nextRound (clock : Clock σ) (loop : Loop τ ρ ε) (s : σ) : Loop τ ρ ε × σ :=
  let pause :=
    if loop.queue.isEmpty then
      loop.timers.head?.elim 0 fun timer => timer.1 - clock.now s
    else if loop.queue.any isAgain then 1
    else 0
  let s := clock.elapse pause s
  let due := loop.timers.takeWhile fun timer => timer.1 ≤ clock.now s
  ({ loop with
      round := loop.queue ++ due.map fun timer => .task timer.2
      queue := []
      timers := loop.timers.drop due.length }, s)

/-- Whether nothing is left to do. -/
def isIdle (loop : Loop τ ρ ε) : Bool :=
  loop.round.isEmpty && (loop.stopping || (loop.queue.isEmpty && loop.timers.isEmpty))

/-- One step: an entry of the round is taken, or the next round begins. -/
def step (routine : Coroutine σ τ ρ ε) (clock : Clock σ) (loop : Loop τ ρ ε) (s : σ) :
    Loop τ ρ ε × σ :=
  match loop.round with
  | entry :: rest => take routine clock entry { loop with round := rest } s
  | [] => nextRound clock loop s

/-- Steps until nothing is left to do; none if that never happens. -/
def run (routine : Coroutine σ τ ρ ε) (clock : Clock σ) (loop : Loop τ ρ ε) (s : σ) :
    Option (Loop τ ρ ε × σ) :=
  repeatUntil (fun now => now.1.isIdle) (fun now => now.1.step routine clock now.2) (loop, s)

end Loop

/-- Runs tasks to their end, at most `limit` at a time.  The results come in the order of the
tasks; the first failure cancels the tasks that are left. -/
def runPool {σ τ ρ ε : Type} (routine : Coroutine σ τ ρ ε) (clock : Clock σ) (tasks : List τ)
    (limit : Option Int) (s : σ) : Except (Option ε) (List ρ) × σ :=
  match Loop.run routine clock (Loop.ofPool (Pool.ofTasks tasks limit)) s with
  | none => (.error none, s)
  | some (loop, s) =>
    let s := loop.pool.cancelAll routine s
    match loop.failure with
    | some failure => (.error (some failure), s)
    | none =>
      match loop.pool.results? with
      | some results => (.ok results, s)
      | none => (.error none, s)

end BuildRunner.Schedule
