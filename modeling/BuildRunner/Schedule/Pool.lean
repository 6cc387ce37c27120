/-!
# Task pools

A pool holds tasks that take turns on a shared state.  A task runs until it ends, fails, or
suspends.  With a limit a task needs a slot to start: tasks that find none wait, and a task that
ends hands its slot to the one that has waited longest.  Which task is resumed next is left open
here; `Pool.resume` may be called with any of them.
-/

namespace BuildRunner.Schedule

/-- The outcome of a turn. -/
inductive Progress (τ ρ : Type)
  | ended (result : ρ)
  /-- The task goes on after a delay in milliseconds; without one it is never resumed. -/
  | paused (delay : Option Nat) (rest : τ)

/-- How tasks of the type `τ` run on a state of the type `σ`. -/
structure Coroutine (σ τ ρ ε : Type) where
  resume : τ → σ → Except ε (Progress τ ρ) × σ
  /-- Ends a suspended task before its time. -/
  cancel : τ → σ → σ

inductive Status (τ ρ ε : Type)
  /-- Not started yet. -/
  | fresh (task : τ)
  /-- Waiting for a slot. -/
  | blocked (task : τ)
  /-- A slot was handed over; not started yet. -/
  | granted (task : τ)
  | suspended (rest : τ)
  | ended (result : Except ε ρ)

/-- What a turn leads to. -/
inductive Wake
  /-- A slot was handed to a task. -/
  | granted (index : Nat)
  | paused (index : Nat) (delay : Option Nat)
  | finished (index : Nat)
deriving DecidableEq, Repr

structure Pool (τ ρ ε : Type) where
  tasks : List (Status τ ρ ε)
  /-- The number of free slots, if there is a limit. -/
  free : Option Nat
  /-- The tasks that wait for a slot, the longest-waiting first. -/
  waiters : List Nat := []

namespace Pool

variable {σ τ ρ ε : Type}

/-- A pool of tasks that have not started.  A limit that is not positive is none. -/
def ofTasks (tasks : List τ) (limit : Option Int) : Pool τ ρ ε :=
  { tasks := tasks.map .fresh
    free := limit.bind fun n => if 0 < n then some n.toNat else none }

def setStatus (pool : Pool τ ρ ε) (index : Nat) (status : Status τ ρ ε) : Pool τ ρ ε :=
  { pool with tasks := pool.tasks.set index status }

/-- The pool after a running task has given back its slot, and the task that gets it. -/
def release (pool : Pool τ ρ ε) : Pool τ ρ ε × List Wake :=
  match pool.free, pool.waiters with
  | none, _ => (pool, [])
  | some n, [] => ({ pool with free := some (n + 1) }, [])
  | some _, next :: rest =>
    let pool : Pool τ ρ ε := { pool with waiters := rest }
    match pool.tasks[next]? with
    | some (.blocked task) => (pool.setStatus next (.granted task), [.granted next])
    | _ => (pool, [.granted next])

/-- Gives a task its turn. -/
def run (routine : Coroutine σ τ ρ ε) (index : Nat) (task : τ) (pool : Pool τ ρ ε) (s : σ) :
    Pool τ ρ ε × σ × List Wake :=
  match routine.resume task s with
  | (.ok (.paused delay rest), s) =>
    (pool.setStatus index (.suspended rest), s, [.paused index delay])
  | (.ok (.ended result), s) =>
    let (pool, wakes) := (pool.setStatus index (.ended (.ok result))).release
    (pool, s, wakes ++ [.finished index])
  | (.error failure, s) =>
    let (pool, wakes) := (pool.setStatus index (.ended (.error failure))).release
    (pool, s, wakes ++ [.finished index])

/-- Resumes the task of an index: a task that has not started takes a slot or waits for one, and
any other task goes on. -/
def resume (routine : Coroutine σ τ ρ ε) (index : Nat) (pool : Pool τ ρ ε) (s : σ) :
    Pool τ ρ ε × σ × List Wake :=
  match pool.tasks[index]? with
  | some (.fresh task) =>
    match pool.free, pool.waiters with
    | none, _ => pool.run routine index task s
    | some (n + 1), [] => { pool with free := some n }.run routine index task s
    | _, _ =>
      ({ pool.setStatus index (.blocked task) with waiters := pool.waiters ++ [index] }, s, [])
  | some (.granted task) => pool.run routine index task s
  | some (.suspended task) => pool.run routine index task s
  | _ => (pool, s, [])

/-- The failure of a task that has ended with one. -/
def failureOf (pool : Pool τ ρ ε) (index : Nat) : Option ε :=
  match pool.tasks[index]? with
  | some (.ended (.error failure)) => some failure
  | _ => none

/-- The results of all tasks, once each has ended well. -/
def results? (pool : Pool τ ρ ε) : Option (List ρ) :=
  pool.tasks.mapM fun
    | .ended (.ok result) => some result
    | _ => none

/-- The state after a task has been cancelled, if it is suspended. -/
def cancelOne (routine : Coroutine σ τ ρ ε) (s : σ) : Status τ ρ ε → σ
  | .suspended rest => routine.cancel rest s
  | _ => s

/-- The state after all suspended tasks have been cancelled, in order. -/
def cancelAll (routine : Coroutine σ τ ρ ε) (pool : Pool τ ρ ε) (s : σ) : σ :=
  pool.tasks.foldl (cancelOne routine) s

end Pool

end BuildRunner.Schedule
