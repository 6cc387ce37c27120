import BuildRunner.Schedule.Pool
import Mathlib.Tactic.Common

/-!
# Seats

The slots of a pool are its seats.  While a task has its turn it holds one, if they are limited; the
tasks behind it have asked for one in their order and are handed one in the same order.  So three
numbers tell how far a pool has come: the tasks in front have begun, those behind them have been
handed a seat, then come those that wait for one, and the last have not asked yet.
-/

namespace BuildRunner.Schedule

variable {σ τ ρ ε : Type}

/-- What a turn has come to. -/
inductive Outcome (ρ ε : Type)
  | paused (delay : Option Nat)
  | ended (result : Except ε ρ)

def Outcome.of : Except ε (Progress τ ρ) → Outcome ρ ε
  | .ok (.paused delay _) => .paused delay
  | .ok (.ended result) => .ended (.ok result)
  | .error failure => .ended (.error failure)

/-- How far a task has come on its way to its first turn. -/
inductive Phase
  | asking
  | waiting
  | handed
  | begun
deriving DecidableEq

namespace Status

def phase : Status τ ρ ε → Phase
  | .fresh _ => .asking
  | .blocked _ => .waiting
  | .granted _ => .handed
  | .suspended _ => .begun
  | .ended _ => .begun

/-- The task has begun and not ended. -/
def isRunning : Status τ ρ ε → Bool
  | .suspended _ => true
  | _ => false

end Status

namespace Pool

/-- The number of tasks that have begun and not ended. -/
def running (pool : Pool τ ρ ε) : Nat := pool.tasks.countP Status.isRunning

/-- The number of tasks that have been handed a seat and not begun. -/
def handed (pool : Pool τ ρ ε) : Nat :=
  pool.tasks.countP fun status => decide (status.phase = .handed)

/-- The pool while a task has its turn, with the task; none if the task is in no position to go on. -/
def seated (pool : Pool τ ρ ε) (index : Nat) : Option (Pool τ ρ ε × τ) :=
  match pool.tasks[index]? with
  | some (.fresh task) =>
    match pool.free, pool.waiters with
    | none, _ => some (pool.setStatus index (.suspended task), task)
    | some (n + 1), [] =>
      some ({ pool with free := some n }.setStatus index (.suspended task), task)
    | _, _ => none
  | some (.granted task) => some (pool.setStatus index (.suspended task), task)
  | some (.suspended task) => some (pool.setStatus index (.suspended task), task)
  | _ => none

/-! ## Turns -/

theorem setStatus_setStatus (pool : Pool τ ρ ε) (index : Nat) (status status' : Status τ ρ ε) :
    (pool.setStatus index status).setStatus index status' = pool.setStatus index status' := by
  simp [setStatus, List.set_set]

theorem run_of_paused {routine : Coroutine σ τ ρ ε} {task rest : τ} {s s' : σ}
    {delay : Option Nat} (hturn : routine.resume task s = (.ok (.paused delay rest), s'))
    (pool : Pool τ ρ ε) (index : Nat) :
    pool.run routine index task s =
      (pool.setStatus index (.suspended rest), s', [.paused index delay]) := by
  simp [run, hturn]

theorem run_of_ended {routine : Coroutine σ τ ρ ε} {task : τ} {s s' : σ}
    {result : Except ε (Progress τ ρ)} {ending : Except ε ρ}
    (hturn : routine.resume task s = (result, s')) (hending : Outcome.of result = .ended ending)
    (pool : Pool τ ρ ε) (index : Nat) :
    pool.run routine index task s =
      ((pool.setStatus index (.ended ending)).release.1, s',
        (pool.setStatus index (.ended ending)).release.2 ++ [.finished index]) := by
  rcases result with failure | (result | ⟨delay, rest⟩)
  · simp only [Outcome.of, Outcome.ended.injEq] at hending
    subst hending
    simp [run, hturn]
  · simp only [Outcome.of, Outcome.ended.injEq] at hending
    subst hending
    simp [run, hturn]
  · simp [Outcome.of] at hending

/-- What is left of the status of a task after its turn does not depend on the one before. -/
theorem run_setStatus (routine : Coroutine σ τ ρ ε) (pool : Pool τ ρ ε) (index : Nat)
    (status : Status τ ρ ε) (task : τ) (s : σ) :
    (pool.setStatus index status).run routine index task s = pool.run routine index task s := by
  unfold run
  simp only [setStatus_setStatus]

theorem resume_of_seated {pool pool' : Pool τ ρ ε} {index : Nat} {task : τ}
    (hseated : pool.seated index = some (pool', task)) (routine : Coroutine σ τ ρ ε) (s : σ) :
    pool.resume routine index s = pool'.run routine index task s := by
  unfold seated at hseated
  unfold resume
  split at hseated
  · next hstatus =>
      split at hseated
      all_goals simp_all
      all_goals
        obtain ⟨rfl, rfl⟩ := hseated
        rw [run_setStatus]
  · next hstatus =>
      simp only [Option.some.injEq, Prod.mk.injEq] at hseated
      obtain ⟨rfl, rfl⟩ := hseated
      simp only [hstatus, run_setStatus]
  · next hstatus =>
      simp only [Option.some.injEq, Prod.mk.injEq] at hseated
      obtain ⟨rfl, rfl⟩ := hseated
      simp only [hstatus, run_setStatus]
  · simp at hseated

/-- A task that finds no seat waits behind the others. -/
theorem resume_of_fresh {pool : Pool τ ρ ε} {index : Nat} {task : τ}
    (hfresh : pool.tasks[index]? = some (.fresh task)) (hnone : pool.seated index = none)
    (routine : Coroutine σ τ ρ ε) (s : σ) :
    pool.resume routine index s =
      ({ pool.setStatus index (.blocked task) with waiters := pool.waiters ++ [index] }, s, []) := by
  unfold seated at hnone
  unfold resume
  rw [hfresh] at hnone ⊢
  rcases pool with ⟨tasks, _ | _ | n, waiters⟩
  · simp at hnone
  · rfl
  · cases waiters with
    | nil => simp at hnone
    | cons first waiters => rfl

theorem tasks_setStatus (pool : Pool τ ρ ε) (index : Nat) (status : Status τ ρ ε) :
    (pool.setStatus index status).tasks = pool.tasks.set index status := rfl

theorem running_setStatus {pool : Pool τ ρ ε} {index : Nat} {old : Status τ ρ ε}
    (hold : pool.tasks[index]? = some old) (status : Status τ ρ ε) :
    (pool.setStatus index status).running + (if old.isRunning then 1 else 0) =
      pool.running + (if status.isRunning then 1 else 0) := by
  obtain ⟨hlt, hget⟩ := List.getElem?_eq_some_iff.mp hold
  have hcount := List.countP_set (p := Status.isRunning) (l := pool.tasks) (a := status) hlt
  have hpos : pool.tasks[index].isRunning = true → 0 < pool.tasks.countP Status.isRunning :=
    fun hrunning => List.countP_pos_iff.mpr ⟨_, List.getElem_mem hlt, hrunning⟩
  rw [hget] at hcount hpos
  simp only [running, tasks_setStatus, hcount]
  split
  · next hrunning =>
      have := hpos hrunning
      omega
  · omega

end Pool

/-! ## The line -/

/-- The phase of the task of an index, given how many have begun, have been handed a seat, and have
asked for one. -/
def phaseAt (begun handed asked index : Nat) : Phase :=
  if index < begun then .begun
  else if index < handed then .handed
  else if index < asked then .waiting
  else .asking

theorem phase_set {tasks : List (Status τ ρ ε)} {old new : Nat → Phase} {i : Nat}
    {status : Status τ ρ ε}
    (hold : ∀ {j other}, tasks[j]? = some other → other.phase = old j)
    (hself : status.phase = new i) (hother : ∀ j, j ≠ i → new j = old j) {j : Nat}
    {other : Status τ ρ ε} (hj : (tasks.set i status)[j]? = some other) :
    other.phase = new j := by
  by_cases hji : j = i
  · subst hji
    obtain ⟨hlt, hget⟩ := List.getElem?_eq_some_iff.mp hj
    rw [List.getElem_set_self] at hget
    rw [← hget, hself]
  · rw [List.getElem?_set_ne (Ne.symm hji)] at hj
    rw [hold hj, hother j hji]

/-- Every seat is free, taken by a task that runs, or handed to one that has yet to begin, and none
is free while a task waits. -/
def Balanced (running handed waiting : Nat) : (limit free : Option Nat) → Prop
  | none, none => handed = 0 ∧ waiting = 0
  | some limit, some free => free + running + handed = limit ∧ (free = 0 ∨ waiting = 0)
  | _, _ => False

/-- The tasks of a pool stand in line: `begun` of them have begun, `handed` have been handed a seat,
and `asked` have asked for one.  Those that have been handed one are called in their order, and so
are those that have yet to ask. -/
structure Lined (limit : Option Nat) (pool : Pool τ ρ ε) (called : List Nat)
    (begun handed asked : Nat) : Prop where
  begun_le : begun ≤ handed
  handed_le : handed ≤ asked
  asked_le : asked ≤ pool.tasks.length
  phase : ∀ {i status}, pool.tasks[i]? = some status →
    status.phase = phaseAt begun handed asked i
  waiters : pool.waiters = List.range' handed (asked - handed)
  called : called = List.range' begun (handed - begun) ++
    List.range' asked (pool.tasks.length - asked)
  asking : asked < pool.tasks.length → begun = handed
  balanced : Balanced pool.running (handed - begun) (asked - handed) limit pool.free

/-- The limit that is in force. -/
def seatLimit (limit : Option Int) : Option Nat :=
  limit.bind fun n => if 0 < n then some n.toNat else none

theorem lined_ofTasks (tasks : List τ) (limit : Option Int) :
    Lined (seatLimit limit) (Pool.ofTasks tasks limit : Pool τ ρ ε) (List.range tasks.length)
      0 0 0 := by
  have hnone : (Pool.ofTasks tasks limit : Pool τ ρ ε).running = 0 := by
    simp [Pool.running, Pool.ofTasks, List.countP_eq_zero, Status.isRunning]
  refine ⟨Nat.le_refl 0, Nat.le_refl 0, Nat.zero_le _, ?_, rfl, ?_, fun _ => rfl, ?_⟩
  · intro i status hstatus
    simp only [Pool.ofTasks, List.getElem?_map, Option.map_eq_some_iff] at hstatus
    obtain ⟨task, -, rfl⟩ := hstatus
    rfl
  · simp [Pool.ofTasks, List.range_eq_range']
  · rw [hnone]
    show Balanced 0 0 0 (seatLimit limit) (seatLimit limit)
    cases seatLimit limit with
    | none => exact ⟨rfl, rfl⟩
    | some n => exact ⟨rfl, Or.inr rfl⟩

namespace Pool

theorem release_of_no_waiters {pool : Pool τ ρ ε} (hnone : pool.waiters = []) :
    pool.release = ({ pool with free := pool.free.map (· + 1) }, []) := by
  obtain ⟨tasks, free, waiters⟩ := pool
  dsimp only at hnone
  subst hnone
  cases free <;> rfl

theorem release_of_waiter {pool : Pool τ ρ ε} {free next : Nat} {rest : List Nat} {task : τ}
    (hfree : pool.free = some free) (hwaiters : pool.waiters = next :: rest)
    (hblocked : pool.tasks[next]? = some (.blocked task)) :
    pool.release =
      ({ pool.setStatus next (.granted task) with waiters := rest }, [.granted next]) := by
  simp only [release, hfree, hwaiters, hblocked, setStatus]

end Pool

namespace Lined

variable {limit : Option Nat} {pool : Pool τ ρ ε} {called : List Nat} {begun handed asked : Nat}

theorem exists_status (hlined : Lined limit pool called begun handed asked) {i : Nat}
    (hi : i < pool.tasks.length) :
    ∃ status, pool.tasks[i]? = some status ∧ status.phase = phaseAt begun handed asked i :=
  ⟨_, List.getElem?_eq_getElem hi, hlined.phase (List.getElem?_eq_getElem hi)⟩

theorem exists_granted (hlined : Lined limit pool called begun handed asked) {i : Nat}
    (hbegun : begun ≤ i) (hhanded : i < handed) :
    ∃ task, pool.tasks[i]? = some (.granted task) := by
  have hlt : i < pool.tasks.length := by
    have := hlined.handed_le
    have := hlined.asked_le
    omega
  obtain ⟨status, hstatus, hphase⟩ := hlined.exists_status hlt
  have hat : phaseAt begun handed asked i = .handed := by
    unfold phaseAt
    split_ifs <;> first | rfl | omega
  rw [hat] at hphase
  cases status <;> simp [Status.phase] at hphase
  exact ⟨_, hstatus⟩

theorem exists_blocked (hlined : Lined limit pool called begun handed asked) {i : Nat}
    (hhanded : handed ≤ i) (hasked : i < asked) :
    ∃ task, pool.tasks[i]? = some (.blocked task) := by
  have hlt : i < pool.tasks.length := by
    have := hlined.asked_le
    omega
  obtain ⟨status, hstatus, hphase⟩ := hlined.exists_status hlt
  have hat : phaseAt begun handed asked i = .waiting := by
    have := hlined.begun_le
    unfold phaseAt
    split_ifs <;> first | rfl | omega
  rw [hat] at hphase
  cases status <;> simp [Status.phase] at hphase
  exact ⟨_, hstatus⟩

theorem exists_fresh (hlined : Lined limit pool called begun handed asked) {i : Nat}
    (hasked : asked ≤ i) (hi : i < pool.tasks.length) :
    ∃ task, pool.tasks[i]? = some (.fresh task) := by
  obtain ⟨status, hstatus, hphase⟩ := hlined.exists_status hi
  have hat : phaseAt begun handed asked i = .asking := by
    have := hlined.begun_le
    have := hlined.handed_le
    unfold phaseAt
    split_ifs <;> first | rfl | omega
  rw [hat] at hphase
  cases status <;> simp [Status.phase] at hphase
  exact ⟨_, hstatus⟩

theorem lt_begun (hlined : Lined limit pool called begun handed asked) {i : Nat}
    {status : Status τ ρ ε} (hstatus : pool.tasks[i]? = some status) :
    status.phase = .begun ↔ i < begun := by
  rw [hlined.phase hstatus]
  unfold phaseAt
  split_ifs with hlt
  · simp [hlt]
  all_goals simp [hlt]

/-- The next task that is called is the first of those that were handed a seat, or the first of those
that have yet to ask. -/
theorem called_cases {i : Nat} {rest : List Nat}
    (hlined : Lined limit pool (i :: rest) begun handed asked) :
    (i = begun ∧ begun < handed ∧ asked = pool.tasks.length ∧
        rest = List.range' (begun + 1) (handed - (begun + 1)) ++ List.range' asked 0) ∨
      (i = asked ∧ begun = handed ∧ asked < pool.tasks.length ∧
        rest = List.range' (asked + 1) (pool.tasks.length - (asked + 1))) := by
  have hcalled := hlined.called
  have hasked := hlined.asked_le
  rcases Nat.lt_or_ge begun handed with hlt | hge
  · have hall : asked = pool.tasks.length := by
      by_contra hne
      have := hlined.asking (by omega)
      omega
    obtain ⟨m, hm⟩ : ∃ m, handed - begun = m + 1 := ⟨handed - begun - 1, by omega⟩
    rw [hm, List.range'_succ, List.cons_append, List.cons.injEq] at hcalled
    refine Or.inl ⟨hcalled.1, hlt, hall, ?_⟩
    rw [hcalled.2, hall, Nat.sub_self, show handed - (begun + 1) = m by omega]
  · have hnone : handed - begun = 0 := by omega
    rw [hnone, List.range'_zero, List.nil_append] at hcalled
    have hlt : asked < pool.tasks.length := by
      by_contra hnot
      rw [show pool.tasks.length - asked = 0 by omega] at hcalled
      simp at hcalled
    obtain ⟨m, hm⟩ : ∃ m, pool.tasks.length - asked = m + 1 :=
      ⟨pool.tasks.length - asked - 1, by omega⟩
    rw [hm, List.range'_succ, List.cons.injEq] at hcalled
    have := hlined.begun_le
    refine Or.inr ⟨hcalled.1, by omega, hlt, ?_⟩
    rw [hcalled.2, show pool.tasks.length - (asked + 1) = m by omega]

/-- A task that was handed a seat takes it. -/
theorem seat_handed {i : Nat} {rest : List Nat} {task : τ}
    (hlined : Lined limit pool (i :: rest) begun handed asked) (hlt : begun < handed)
    (hgranted : pool.tasks[i]? = some (.granted task)) :
    Lined limit (pool.setStatus i (.suspended task)) rest (begun + 1) handed asked := by
  rcases hlined.called_cases with ⟨rfl, -, hall, hrest⟩ | ⟨-, heq, -, -⟩
  · have hrunning := Pool.running_setStatus hgranted (.suspended task)
    simp only [Status.isRunning, if_true, Bool.false_eq_true, if_false, Nat.add_zero] at hrunning
    refine ⟨hlt, hlined.handed_le, ?_, ?_, hlined.waiters, ?_, ?_, ?_⟩
    · simpa [Pool.setStatus] using hlined.asked_le
    · refine phase_set hlined.phase ?_ fun j hj => ?_
      · simp [Status.phase, phaseAt]
      · unfold phaseAt
        split_ifs <;> first | rfl | omega
    · simpa [Pool.setStatus, hall] using hrest
    · intro hless
      simp [Pool.setStatus, hall] at hless
    · have hbalanced := hlined.balanced
      show Balanced _ _ _ limit pool.free
      cases limit <;> cases hfree : pool.free <;> simp only [hfree, Balanced] at hbalanced ⊢
      · omega
      · omega
  · omega

/-- A task that finds a free seat takes it. -/
theorem seat_asking {i : Nat} {rest : List Nat} {task : τ} {pool' : Pool τ ρ ε}
    (hlined : Lined limit pool (i :: rest) begun handed asked)
    (hfresh : pool.tasks[i]? = some (.fresh task)) (hseated : pool.seated i = some (pool', task)) :
    begun = i ∧ Lined limit pool' rest (i + 1) (i + 1) (i + 1) := by
  rcases hlined.called_cases with ⟨rfl, hlt, -, -⟩ | ⟨rfl, heq, hless, hrest⟩
  · obtain ⟨other, hgranted⟩ := hlined.exists_granted (Nat.le_refl _) hlt
    rw [hgranted] at hfresh
    simp at hfresh
  · have hrunning := Pool.running_setStatus hfresh (.suspended task)
    simp only [Status.isRunning, if_true, Bool.false_eq_true, if_false, Nat.add_zero] at hrunning
    have hbalanced := hlined.balanced
    have hwaiters := hlined.waiters
    have hle := hlined.handed_le
    obtain ⟨free, rfl, rfl, hafter⟩ : ∃ free,
        pool' = { pool.setStatus i (.suspended task) with free } ∧ i = handed ∧
          Balanced (pool.running + 1) 0 0 limit free := by
      simp only [Pool.seated, hfresh] at hseated
      split at hseated
      · next hfree =>
          simp only [Option.some.injEq, Prod.mk.injEq, and_true] at hseated
          subst hseated
          refine ⟨none, by rw [← hfree]; rfl, ?_⟩
          rw [hfree] at hbalanced
          cases limit <;> simp only [Balanced] at hbalanced
          exact ⟨by omega, rfl, rfl⟩
      · next n hfree hempty =>
          simp only [Option.some.injEq, Prod.mk.injEq, and_true] at hseated
          subst hseated
          refine ⟨some n, rfl, ?_⟩
          rw [hempty] at hwaiters
          have hlength := congrArg List.length hwaiters
          rw [List.length_range', List.length_nil] at hlength
          rw [hfree] at hbalanced
          cases limit <;> simp only [Balanced] at hbalanced
          exact ⟨by omega, by omega, Or.inr rfl⟩
      · simp at hseated
    have hlength : ({ pool.setStatus i (.suspended task) with free } : Pool τ ρ ε).tasks.length =
        pool.tasks.length := by simp [Pool.setStatus]
    refine ⟨heq, Nat.le_refl _, Nat.le_refl _, hlength.symm ▸ hless, ?_, ?_, ?_, fun _ => rfl, ?_⟩
    · refine phase_set hlined.phase ?_ fun j hj => ?_
      · simp [Status.phase, phaseAt]
      · unfold phaseAt
        split_ifs <;> first | rfl | omega
    · simpa [Pool.setStatus] using hwaiters
    · rw [hlength, Nat.sub_self, List.range'_zero, List.nil_append]
      exact hrest
    · have hsame : ({ pool.setStatus i (.suspended task) with free } : Pool τ ρ ε).running =
          pool.running + 1 := hrunning
      rw [hsame]
      simpa using hafter

/-- A task that finds no seat waits for one. -/
theorem wait {i : Nat} {rest : List Nat} {task : τ}
    (hlined : Lined limit pool (i :: rest) begun handed asked)
    (hfresh : pool.tasks[i]? = some (.fresh task)) (hnone : pool.seated i = none) :
    Lined limit { pool.setStatus i (.blocked task) with waiters := pool.waiters ++ [i] } rest
      begun handed (i + 1) := by
  rcases hlined.called_cases with ⟨rfl, hlt, -, -⟩ | ⟨rfl, heq, hless, hrest⟩
  · obtain ⟨other, hgranted⟩ := hlined.exists_granted (Nat.le_refl _) hlt
    rw [hgranted] at hfresh
    simp at hfresh
  · have hrunning := Pool.running_setStatus hfresh (.blocked task)
    simp only [Status.isRunning, Bool.false_eq_true, if_false, Nat.add_zero] at hrunning
    have hbalanced := hlined.balanced
    have hle := hlined.handed_le
    have hwaiters := hlined.waiters
    have hafter : Balanced pool.running (handed - begun) (i + 1 - handed) limit pool.free := by
      simp only [Pool.seated, hfresh] at hnone
      split at hnone
      · simp at hnone
      · simp at hnone
      · next hlimited hfull =>
          cases limit <;> cases hfree : pool.free <;>
            simp only [hfree, Balanced] at hbalanced ⊢
          · exact absurd hfree hlimited
          · refine ⟨hbalanced.1, Or.inl ?_⟩
            rcases hbalanced.2 with hzero | hzero
            · exact hzero
            · rename_i n
              cases n with
              | zero => rfl
              | succ n =>
                  refine absurd ?_ (hfull n hfree)
                  rw [hwaiters, hzero, List.range'_zero]
    have hlength : ({ pool.setStatus i (.blocked task) with waiters := pool.waiters ++ [i] } :
        Pool τ ρ ε).tasks.length = pool.tasks.length := by simp [Pool.setStatus]
    refine ⟨hlined.begun_le, by omega, hlength.symm ▸ hless, ?_, ?_, ?_, fun _ => heq, ?_⟩
    · refine phase_set hlined.phase ?_ fun j hj => ?_
      · unfold phaseAt
        split_ifs <;> first | rfl | omega
      · unfold phaseAt
        split_ifs <;> first | rfl | omega
    · show pool.waiters ++ [i] = _
      rw [hwaiters, show i + 1 - handed = (i - handed) + 1 by omega, List.range'_concat]
      congr 2
      omega
    · rw [hrest]
      simp [Pool.setStatus, heq]
    · have hsame : ({ pool.setStatus i (.blocked task) with waiters := pool.waiters ++ [i] } :
          Pool τ ρ ε).running = pool.running := hrunning
      rw [hsame]
      exact hafter

/-- A task that has begun may be suspended at another point. -/
theorem pause {i : Nat} {task rest : τ} (hlined : Lined limit pool called begun handed asked)
    (hsuspended : pool.tasks[i]? = some (.suspended task)) :
    Lined limit (pool.setStatus i (.suspended rest)) called begun handed asked := by
  have hbegun : (.suspended rest : Status τ ρ ε).phase = phaseAt begun handed asked i := by
    rw [← hlined.phase hsuspended]
    rfl
  have hrunning := Pool.running_setStatus hsuspended (.suspended rest)
  simp only [Status.isRunning, if_true, Nat.add_right_cancel_iff] at hrunning
  refine ⟨hlined.begun_le, hlined.handed_le, ?_, ?_, hlined.waiters, ?_, ?_, ?_⟩
  · simpa [Pool.setStatus] using hlined.asked_le
  · exact phase_set hlined.phase hbegun fun _ _ => rfl
  · simpa [Pool.setStatus] using hlined.called
  · simpa [Pool.setStatus] using hlined.asking
  · rw [hrunning]
    exact hlined.balanced

/-- Where no task waits, the seat of a task that has ended is free. -/
theorem leave {i : Nat} {task : τ} (hlined : Lined limit pool called begun handed asked)
    (hsuspended : pool.tasks[i]? = some (.suspended task)) (hnone : handed = asked)
    (ending : Except ε ρ) :
    (pool.setStatus i (.ended ending)).release.2 = [] ∧
      (pool.setStatus i (.ended ending)).release.1.tasks = pool.tasks.set i (.ended ending) ∧
        Lined limit (pool.setStatus i (.ended ending)).release.1 called begun handed asked := by
  have hrunning := Pool.running_setStatus hsuspended (.ended ending)
  simp only [Status.isRunning, if_true, Bool.false_eq_true, if_false, Nat.add_zero] at hrunning
  have hbegun : (.ended ending : Status τ ρ ε).phase = phaseAt begun handed asked i := by
    rw [← hlined.phase hsuspended]
    rfl
  have hwaiters : (pool.setStatus i (.ended ending)).waiters = [] := by
    show pool.waiters = []
    rw [hlined.waiters, hnone, Nat.sub_self, List.range'_zero]
  have hbalanced := hlined.balanced
  rw [Pool.release_of_no_waiters hwaiters]
  refine ⟨rfl, rfl, hlined.begun_le, hlined.handed_le, ?_, ?_, ?_, ?_, ?_, ?_⟩
  · simpa [Pool.setStatus] using hlined.asked_le
  · exact phase_set hlined.phase hbegun fun _ _ => rfl
  · exact hlined.waiters
  · simpa [Pool.setStatus] using hlined.called
  · simpa [Pool.setStatus] using hlined.asking
  · show Balanced (pool.setStatus i (.ended ending)).running _ _ limit (pool.free.map (· + 1))
    cases limit <;> cases hfree : pool.free <;>
      simp only [hfree, Balanced, Option.map_some, Option.map_none] at hbalanced ⊢
    · exact hbalanced
    · exact ⟨by omega, Or.inr (by omega)⟩

/-- Where tasks wait, the seat of a task that has ended goes to the first of them. -/
theorem handOn {i : Nat} {task : τ} (hlined : Lined limit pool called begun handed asked)
    (hsuspended : pool.tasks[i]? = some (.suspended task)) (hsome : handed < asked)
    (hall : asked = pool.tasks.length) (ending : Except ε ρ) :
    (pool.setStatus i (.ended ending)).release.2 = [.granted handed] ∧
      (∃ next, pool.tasks[handed]? = some (.blocked next) ∧
        (pool.setStatus i (.ended ending)).release.1.tasks =
          (pool.tasks.set i (.ended ending)).set handed (.granted next)) ∧
        Lined limit (pool.setStatus i (.ended ending)).release.1 (called ++ [handed])
          begun (handed + 1) asked := by
  have hrunning := Pool.running_setStatus hsuspended (.ended ending)
  simp only [Status.isRunning, if_true, Bool.false_eq_true, if_false, Nat.add_zero] at hrunning
  have hbegun : (.ended ending : Status τ ρ ε).phase = phaseAt begun handed asked i := by
    rw [← hlined.phase hsuspended]
    rfl
  have hle := hlined.begun_le
  have hbalanced := hlined.balanced
  obtain ⟨next, hblocked⟩ := hlined.exists_blocked (Nat.le_refl _) hsome
  have hne : i ≠ handed := by
    rintro rfl
    simp [hblocked] at hsuspended
  have hnext : (pool.setStatus i (.ended ending)).tasks[handed]? = some (.blocked next) := by
    rw [Pool.tasks_setStatus, List.getElem?_set_ne hne, hblocked]
  have hwaiters : (pool.setStatus i (.ended ending)).waiters =
      handed :: List.range' (handed + 1) (asked - (handed + 1)) := by
    show pool.waiters = _
    rw [hlined.waiters, show asked - handed = asked - (handed + 1) + 1 by omega, List.range'_succ]
  have hkept := Pool.running_setStatus hnext (.granted next)
  simp only [Status.isRunning, Bool.false_eq_true, if_false, Nat.add_zero] at hkept
  have hlength : ((pool.tasks.set i (.ended ending)).set handed (.granted next)).length =
      pool.tasks.length := by simp
  obtain ⟨free, hfree, hafter⟩ : ∃ free, pool.free = some free ∧
      Balanced (pool.setStatus i (.ended ending)).running (handed + 1 - begun)
        (asked - (handed + 1)) limit (some free) := by
    cases limit <;> cases hfree : pool.free <;> simp only [hfree, Balanced] at hbalanced
    · omega
    · exact ⟨_, rfl, by omega, by omega⟩
  have hfree' : (pool.setStatus i (.ended ending)).free = some free := hfree
  rw [Pool.release_of_waiter hfree' hwaiters hnext]
  refine ⟨rfl, ⟨next, hblocked, rfl⟩, by omega, hsome, ?_, ?_, rfl, ?_, ?_, ?_⟩
  · show asked ≤ _
    rw [hall, ← hlength]
    exact Nat.le_refl _
  · refine phase_set (phase_set hlined.phase hbegun fun _ _ => rfl) ?_ fun j hj => ?_
    · unfold phaseAt
      split_ifs <;> first | rfl | omega
    · unfold phaseAt
      split_ifs <;> first | rfl | omega
  · have hcalled := hlined.called
    rw [hall, Nat.sub_self, List.range'_zero, List.append_nil] at hcalled
    show _ = _ ++ List.range' asked
      (((pool.tasks.set i (.ended ending)).set handed (.granted next)).length - asked)
    rw [hlength, hall, Nat.sub_self, List.range'_zero, List.append_nil, hcalled,
      show handed + 1 - begun = handed - begun + 1 by omega, List.range'_concat]
    congr 2
    omega
  · intro hless
    have hmany : asked < ((pool.tasks.set i (.ended ending)).set handed (.granted next)).length :=
      hless
    omega
  · show Balanced (Pool.running _) _ _ limit pool.free
    rw [hfree]
    exact hkept ▸ hafter

end Lined
end BuildRunner.Schedule
