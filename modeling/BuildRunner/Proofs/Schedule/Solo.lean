import BuildRunner.Proofs.Schedule.Following

/-!
# A task on its own

A task that runs alone has its turns one after the other.  Between two of them passes the delay that
it has asked for, or a millisecond if it has asked for none.  What its last turn comes to is the
result of the run.
-/

namespace BuildRunner.Schedule

variable {σ τ ρ ε : Type}

/-- The turns of a task that runs alone, from a state to another one. -/
inductive Coroutine.Solo (routine : Coroutine σ τ ρ ε) (clock : Clock σ) :
    τ → σ → Except ε ρ → σ → Prop
  | ended {task : τ} {result : ρ} {s s' : σ}
      (hresume : routine.resume task s = (.ok (.ended result), s')) :
      routine.Solo clock task s (.ok result) s'
  | failed {task : τ} {failure : ε} {s s' : σ}
      (hresume : routine.resume task s = (.error failure, s')) :
      routine.Solo clock task s (.error failure) s'
  | paused {task rest : τ} {delay : Nat} {ending : Except ε ρ} {s s' last : σ}
      (hresume : routine.resume task s = (.ok (.paused (some delay) rest), s'))
      (hrest : routine.Solo clock rest (clock.elapse (max 1 delay) s') ending last) :
      routine.Solo clock task s ending last

/-- Where two tasks have the same turn, they go on in the same way. -/
theorem Coroutine.Solo.of_resume_eq {routine : Coroutine σ τ ρ ε} {clock : Clock σ}
    {task task' : τ} {s s' last : σ} {ending : Except ε ρ}
    (hsolo : routine.Solo clock task s ending last)
    (hsame : routine.resume task' s' = routine.resume task s) :
    routine.Solo clock task' s' ending last := by
  cases hsolo with
  | ended hresume => exact .ended (hsame.trans hresume)
  | failed hresume => exact .failed (hsame.trans hresume)
  | paused hresume hrest => exact .paused (hsame.trans hresume) hrest

namespace Loop

/-- The loop when a single task has its turn next. -/
def solo (entry : Entry) (status : Status τ ρ ε) : Loop τ ρ ε :=
  { pool := { tasks := [status], free := none }, round := [entry] }

/-- The loop when the single task has ended. -/
def soloEnded (ending : Except ε ρ) (queue : List Entry) (failure : Option ε) (stopping : Bool) :
    Loop τ ρ ε :=
  { pool := { tasks := [.ended ending], free := none }, queue, failure, stopping }

variable {routine : Coroutine σ τ ρ ε} {clock : Clock σ} {task : τ} {s s' : σ} {entry : Entry}
  {status : Status τ ρ ε}

/-- The single task has its turn. -/
theorem run_solo (hentry : entry.resumed? = some 0)
    (hstatus : status = .fresh task ∨ status = .suspended task) {pool : Pool τ ρ ε} {wake : Wake}
    (hturn : (Pool.run routine 0 task { tasks := [status], free := none } s) =
      (pool, s', [wake])) :
    run routine clock (solo entry status) s =
      run routine clock (note (clock.now s') { pool } wake) s' := by
  have hresume : (solo entry status).pool.resume routine 0 s = (pool, s', [wake]) := by
    rcases hstatus with rfl | rfl
    · exact hturn
    · exact hturn
  have hstep : (solo entry status).step routine clock s =
      (note (clock.now s') { pool } wake, s') := by
    cases entry with
    | task index | again index =>
        cases hentry
        show Loop.resume routine clock 0 { solo _ status with round := [] } s = _
        rw [Loop.resume]
        dsimp only
        rw [hresume]
        rfl
    | _ => cases hentry
  rw [run_of_not_idle routine clock rfl, hstep]

variable (hzero : ∀ s, clock.elapse 0 s = s)

include hzero

/-- Where something is queued and no task has suspended without delay, no time passes. -/
theorem nextRound_of_queued {loop : Loop τ ρ ε} {entry : Entry} {queue : List Entry}
    (hqueue : loop.queue = entry :: queue) (hagain : loop.queue.any isAgain = false)
    (htimers : loop.timers = []) (s : σ) :
    loop.nextRound clock s = ({ loop with round := loop.queue, queue := [], timers := [] }, s) := by
  unfold nextRound
  rw [htimers, hagain, hqueue]
  simp [hzero]

/-- The end of the single task is reported, and a failure ends the loop. -/
theorem run_soloEnded (ending : Except ε ρ) (s : σ) :
    ∃ last : Loop τ ρ ε, run routine clock (soloEnded ending [.report 0] none false) s =
        some (last, s) ∧ last.pool.tasks = [.ended ending] ∧
          last.failure = last.pool.failureOf 0 := by
  have hround : ∀ (entry : Entry) (failure : Option ε), isAgain entry = false →
      run routine clock (soloEnded ending [entry] failure false : Loop τ ρ ε) s =
        run routine clock
          ({ soloEnded ending [] failure false with round := [entry] } : Loop τ ρ ε) s := by
    intro entry failure hagain
    have hnext := @nextRound_of_queued σ τ ρ ε clock hzero (soloEnded ending [entry] failure false)
      entry [] rfl (by simp [soloEnded, hagain]) rfl s
    rw [run_of_not_idle routine clock rfl]
    show run routine clock (nextRound clock _ s).1 (nextRound clock _ s).2 = _
    rw [hnext]
    rfl
  cases ending with
  | ok result =>
      refine ⟨soloEnded (.ok result) [] none false, ?_, rfl, rfl⟩
      rw [hround _ _ rfl, run_of_not_idle routine clock rfl]
      exact run_of_idle routine clock rfl s
  | error failure =>
      refine ⟨soloEnded (.error failure) [] (some failure) true, ?_, rfl, rfl⟩
      -- the report, the call and the stop each take a round
      calc run routine clock (soloEnded (.error failure) [.report 0] none false) s
        _ = run routine clock (soloEnded (.error failure) [.wake] (some failure) false) s := by
          rw [hround _ _ rfl, run_of_not_idle routine clock rfl]
          rfl
        _ = run routine clock (soloEnded (.error failure) [.stop] (some failure) false) s := by
          rw [hround _ _ rfl, run_of_not_idle routine clock rfl]
          rfl
        _ = some (soloEnded (.error failure) [] (some failure) true, s) := by
          rw [hround _ _ rfl, run_of_not_idle routine clock rfl]
          exact run_of_idle routine clock rfl s

variable (hclock : ∀ ticks s, clock.now (clock.elapse ticks s) = clock.now s + ticks)

include hclock

omit hzero in
/-- After a turn that has not been the last, the task has the next one when its time has come. -/
theorem run_note_paused (delay : Nat) (rest : τ) (s : σ) :
    ∃ entry : Entry, entry.resumed? = some 0 ∧
      run routine clock
        (note (clock.now s)
          ({ pool := { tasks := [.suspended rest], free := none } } : Loop τ ρ ε)
          (.paused 0 (some delay))) s =
        run routine clock (solo entry (.suspended rest)) (clock.elapse (max 1 delay) s) := by
  cases delay with
  | zero =>
      refine ⟨.again 0, rfl, ?_⟩
      rw [run_of_not_idle routine clock rfl]
      rfl
  | succ delay =>
      refine ⟨.task 0, rfl, ?_⟩
      have hmax : max 1 (delay + 1) = delay + 1 := Nat.max_eq_right (by omega)
      have hnext : nextRound clock
          (note (clock.now s)
            ({ pool := { tasks := [.suspended rest], free := none } } : Loop τ ρ ε)
            (.paused 0 (some (delay + 1)))) s =
            (solo (.task 0) (.suspended rest), clock.elapse (max 1 (delay + 1)) s) := by
        rw [hmax]
        simp [note, addTimer, nextRound, solo, hclock]
      rw [run_of_not_idle routine clock rfl]
      show run routine clock (nextRound clock _ s).1 (nextRound clock _ s).2 = _
      rw [hnext]

theorem exists_run_solo {ending : Except ε ρ} {last : σ}
    (hsolo : routine.Solo clock task s ending last) (hentry : entry.resumed? = some 0)
    (hstatus : status = .fresh task ∨ status = .suspended task) :
    ∃ loop : Loop τ ρ ε, run routine clock (solo entry status) s = some (loop, last) ∧
      loop.pool.tasks = [.ended ending] ∧ loop.failure = loop.pool.failureOf 0 := by
  induction hsolo generalizing entry status with
  | @ended task result s s' hresume =>
      have hturn : Pool.run routine 0 task { tasks := [status], free := none } s =
          ({ tasks := [.ended (.ok result)], free := none }, s', [.finished 0]) := by
        rw [Pool.run, hresume]
        rfl
      rw [run_solo hentry hstatus hturn]
      exact run_soloEnded hzero (.ok result) s'
  | @failed task failure s s' hresume =>
      have hturn : Pool.run routine 0 task { tasks := [status], free := none } s =
          ({ tasks := [.ended (.error failure)], free := none }, s', [.finished 0]) := by
        rw [Pool.run, hresume]
        rfl
      rw [run_solo hentry hstatus hturn]
      exact run_soloEnded hzero (.error failure) s'
  | @paused task rest delay ending s s' last hresume _ ih =>
      have hturn : Pool.run routine 0 task { tasks := [status], free := none } s =
          ({ tasks := [.suspended rest], free := none }, s', [.paused 0 (some delay)]) := by
        rw [Pool.run, hresume]
        rfl
      obtain ⟨next, hnext, hpaused⟩ :=
        @run_note_paused σ τ ρ ε routine clock hclock delay rest s'
      rw [run_solo hentry hstatus hturn, hpaused]
      exact ih hnext (Or.inr rfl)

end Loop

theorem run_singleton {routine : Coroutine σ τ ρ ε} {clock : Clock σ}
    (hzero : ∀ s, clock.elapse 0 s = s) (task : τ) (s : σ) :
    Loop.run routine clock (.ofPool (Pool.ofTasks [task] none)) s =
      Loop.run routine clock (.solo (.task 0) (.fresh task)) s := by
  obtain ⟨state, hstate, hbegin⟩ := Loop.exists_run_ofTasks routine clock [task] none s
  obtain rfl : state = s := by
    rcases hstate with rfl | rfl
    · rfl
    · exact hzero s
  exact hbegin

/-- A pool of one task comes to what the task comes to. -/
theorem runPool_singleton {routine : Coroutine σ τ ρ ε} {clock : Clock σ}
    (hzero : ∀ s, clock.elapse 0 s = s)
    (hclock : ∀ ticks s, clock.now (clock.elapse ticks s) = clock.now s + ticks) {task : τ}
    {s last : σ} {ending : Except ε ρ} (hsolo : routine.Solo clock task s ending last) :
    runPool routine clock [task] none s =
      ((ending.map fun result => [result]).mapError some, last) := by
  obtain ⟨loop, hrun, htasks, hfailure⟩ :=
    @Loop.exists_run_solo σ τ ρ ε routine clock task s (.task 0) (.fresh task) hzero hclock
      ending last hsolo rfl (Or.inl rfl)
  have hwhole := (run_singleton hzero task s).trans hrun
  rw [runPool, hwhole]
  dsimp only
  rw [hfailure, Pool.failureOf, Pool.cancelAll, Pool.results?, htasks]
  cases ending with
  | _ => rfl

/-- If the only task is never to be resumed, the run ends without a result. -/
theorem runPool_singleton_stalled {routine : Coroutine σ τ ρ ε} {clock : Clock σ}
    (hzero : ∀ s, clock.elapse 0 s = s) {task rest : τ} {s s' : σ}
    (hresume : routine.resume task s = (.ok (.paused none rest), s')) :
    runPool routine clock [task] none s = (.error none, routine.cancel rest s') := by
  have hturn : Pool.run routine 0 task { tasks := [.fresh task], free := none } s =
      ({ tasks := [.suspended rest], free := none }, s', [.paused 0 none]) := by
    rw [Pool.run, hresume]
    rfl
  have hwhole := (run_singleton hzero task s).trans
    ((Loop.run_solo rfl (Or.inl rfl) hturn).trans (Loop.run_of_idle routine clock rfl s'))
  rw [runPool, hwhole]
  rfl

end BuildRunner.Schedule
