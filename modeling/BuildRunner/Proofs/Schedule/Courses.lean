import BuildRunner.Proofs.Schedule.Seats
import Mathlib.Logic.Relation

/-!
# Courses

A course is a run of a pool that leaves open who is resumed.  The tasks are called for their first
turns: all of them in their order, and later those that are handed a seat, as they are handed one.
Once none is left that has yet to ask for a seat, any suspended task may go on at any time.
-/

namespace BuildRunner.Schedule

variable {σ τ ρ ε : Type}

/-- The status after a turn. -/
def Status.after : Except ε (Progress τ ρ) → Status τ ρ ε
  | .ok (.paused _ rest) => .suspended rest
  | .ok (.ended result) => .ended (.ok result)
  | .error failure => .ended (.error failure)

/-- The status but for the place in the line. -/
def Status.plain : Status τ ρ ε → Status τ ρ ε
  | .blocked task => .fresh task
  | .granted task => .fresh task
  | status => status

/-- What is left of a task that has not ended. -/
def Status.task? : Status τ ρ ε → Option τ
  | .fresh task => some task
  | .blocked task => some task
  | .granted task => some task
  | .suspended rest => some rest
  | .ended _ => none

theorem Status.task?_plain (status : Status τ ρ ε) : status.plain.task? = status.task? := by
  cases status <;> rfl

def Wake.granted? : Wake → Option Nat
  | .granted index => some index
  | _ => none

namespace Pool

/-- A task is due to be resumed, while some are called for their first turns; these are called
after it. -/
inductive Due (pool : Pool τ ρ ε) : List Nat → Nat → List Nat → Prop
  | call {index : Nat} {rest : List Nat} : Due pool (index :: rest) index rest
  | goOn {index : Nat} {task : τ} {called : List Nat}
      (hasked : ∀ status ∈ pool.tasks, status.phase ≠ .asking)
      (htask : pool.tasks[index]? = some (.suspended task)) : Due pool called index called

end Pool

structure Turn (ρ ε : Type) where
  index : Nat
  outcome : Outcome ρ ε

structure Course (σ τ ρ ε : Type) where
  pool : Pool τ ρ ε
  state : σ
  /-- The tasks that are called for their first turns. -/
  called : List Nat
  /-- The turns that have been taken. -/
  turns : List (Turn ρ ε) := []

def Turn.failure? : Turn ρ ε → Option ε
  | ⟨_, .ended (.error failure)⟩ => some failure
  | _ => none

namespace Course

/-- The failure that was raised first. -/
def failure (course : Course σ τ ρ ε) : Option ε := course.turns.findSome? Turn.failure?

/-- Every task has ended. -/
def Over (course : Course σ τ ρ ε) : Prop :=
  ∀ status ∈ course.pool.tasks, ∃ ending, status = .ended ending

/-- No task has been called yet. -/
def ofTasks (tasks : List τ) (limit : Option Int) (state : σ) : Course σ τ ρ ε where
  pool := Pool.ofTasks tasks limit
  state := state
  called := List.range tasks.length

/-- The turn that a task takes when it is resumed. -/
def turnOf (routine : Coroutine σ τ ρ ε) (course : Course σ τ ρ ε) (index : Nat) :
    List (Turn ρ ε) :=
  match course.pool.seated index with
  | some (_, task) => [⟨index, .of (routine.resume task course.state).1⟩]
  | none => []

/-- The course after a task has been resumed. -/
def afterResume (routine : Coroutine σ τ ρ ε) (course : Course σ τ ρ ε) (index : Nat)
    (called : List Nat) : Course σ τ ρ ε where
  pool := (course.pool.resume routine index course.state).1
  state := (course.pool.resume routine index course.state).2.1
  called := called ++ (course.pool.resume routine index course.state).2.2.filterMap Wake.granted?
  turns := course.turns ++ course.turnOf routine index

/-- A task is resumed. -/
inductive Resume (routine : Coroutine σ τ ρ ε) (course : Course σ τ ρ ε) : Course σ τ ρ ε → Prop
  | due {index : Nat} {called : List Nat} (hdue : course.pool.Due course.called index called) :
      Resume routine course (course.afterResume routine index called)

/-- One step of a course: a task is resumed, or the world changes the state. -/
inductive Step (routine : Coroutine σ τ ρ ε) (world : σ → σ → Prop) (course : Course σ τ ρ ε) :
    Course σ τ ρ ε → Prop
  | resume {next : Course σ τ ρ ε} (hresume : Resume routine course next) :
      Step routine world course next
  | world {state : σ} (hworld : world course.state state) :
      Step routine world course { course with state }

/-- Any number of steps. -/
abbrev Reaches (routine : Coroutine σ τ ρ ε) (world : σ → σ → Prop) :
    Course σ τ ρ ε → Course σ τ ρ ε → Prop := Relation.ReflTransGen (Step routine world)

end Course

/-! ## Turns -/

/-- What a turn does to the tasks of a pool, and what it leads to: the task is suspended, or it ends,
and then its seat may be handed on. -/
inductive Turned (index : Nat) (tasks : List (Status τ ρ ε)) (result : Except ε (Progress τ ρ)) :
    List (Status τ ρ ε) → List Wake → Prop
  | paused {delay : Option Nat} {rest : τ} (hpaused : result = .ok (.paused delay rest)) :
      Turned index tasks result (tasks.set index (.suspended rest)) [.paused index delay]
  | left {ending : Except ε ρ} (hending : Outcome.of result = .ended ending) :
      Turned index tasks result (tasks.set index (.ended ending)) [.finished index]
  | handedOn {ending : Except ε ρ} {next : Nat} {task : τ}
      (hending : Outcome.of result = .ended ending) (hnext : tasks[next]? = some (.blocked task))
      (hne : index ≠ next) :
      Turned index tasks result ((tasks.set index (.ended ending)).set next (.granted task))
        [.granted next, .finished index]

theorem Status.after_of_ended {result : Except ε (Progress τ ρ)} {ending : Except ε ρ}
    (hending : Outcome.of result = .ended ending) :
    (Status.after result : Status τ ρ ε) = .ended ending := by
  rcases result with failure | (result | ⟨delay, rest⟩)
  · simpa [Outcome.of, Status.after] using hending
  · simpa [Outcome.of, Status.after] using hending
  · simp [Outcome.of] at hending

theorem Status.after_eq_ended {result : Except ε (Progress τ ρ)} {ending : Except ε ρ} :
    (Status.after result : Status τ ρ ε) = .ended ending ↔ Outcome.of result = .ended ending := by
  rcases result with failure | (result | ⟨delay, rest⟩) <;> simp [Outcome.of, Status.after]

/-- Only the task whose turn it is comes any further. -/
theorem Turned.plain {index : Nat} {tasks tasks' : List (Status τ ρ ε)}
    {result : Except ε (Progress τ ρ)} {wakes : List Wake}
    (hturned : Turned index tasks result tasks' wakes) :
    tasks'.map Status.plain = (tasks.map Status.plain).set index (Status.after result) := by
  cases hturned with
  | paused hpaused => simp [hpaused, List.map_set, Status.after, Status.plain]
  | left hending => simp [List.map_set, Status.after_of_ended hending, Status.plain]
  | @handedOn ending next task hending hnext hne =>
      have hplain : ((tasks.map Status.plain).set index (.ended ending))[next]? =
          some (.fresh task) := by
        rw [List.getElem?_set_ne hne, List.getElem?_map, hnext]
        rfl
      obtain ⟨hlt, hget⟩ := List.getElem?_eq_some_iff.mp hplain
      rw [List.map_set, List.map_set, Status.after_of_ended hending]
      show ((tasks.map Status.plain).set index (.ended ending)).set next (.fresh task) = _
      rw [← hget, List.set_getElem_self]

namespace Pool

theorem seated_of_suspended {pool : Pool τ ρ ε} {index : Nat} {task : τ}
    (htask : pool.tasks[index]? = some (.suspended task)) :
    pool.seated index = some (pool.setStatus index (.suspended task), task) := by
  simp [seated, htask]

theorem seated_of_granted {pool : Pool τ ρ ε} {index : Nat} {task : τ}
    (htask : pool.tasks[index]? = some (.granted task)) :
    pool.seated index = some (pool.setStatus index (.suspended task), task) := by
  simp [seated, htask]

theorem tasks_seated {pool pool' : Pool τ ρ ε} {index : Nat} {task : τ}
    (hseated : pool.seated index = some (pool', task)) :
    pool'.tasks = pool.tasks.set index (.suspended task) ∧
      ∃ status, pool.tasks[index]? = some status ∧ status.task? = some task := by
  unfold seated at hseated
  split at hseated
  · next hfresh =>
      split at hseated
      all_goals
        first
        | contradiction
        | simp only [Option.some.injEq, Prod.mk.injEq] at hseated
          obtain ⟨rfl, rfl⟩ := hseated
          exact ⟨rfl, _, hfresh, rfl⟩
  · next hgranted =>
      simp only [Option.some.injEq, Prod.mk.injEq] at hseated
      obtain ⟨rfl, rfl⟩ := hseated
      exact ⟨rfl, _, hgranted, rfl⟩
  · next hsuspended =>
      simp only [Option.some.injEq, Prod.mk.injEq] at hseated
      obtain ⟨rfl, rfl⟩ := hseated
      exact ⟨rfl, _, hsuspended, rfl⟩
  · contradiction

end Pool

namespace Lined

variable {limit : Option Nat} {pool : Pool τ ρ ε} {called called' : List Nat}
  {begun handed asked i : Nat}

/-- The line after a turn of a task that has begun. -/
theorem run {task : τ} (hlined : Lined limit pool called begun handed asked)
    (hsuspended : pool.tasks[i]? = some (.suspended task))
    (hall : handed < asked → asked = pool.tasks.length) (routine : Coroutine σ τ ρ ε) (s : σ) :
    (pool.run routine i task s).2.1 = (routine.resume task s).2 ∧
      Turned i pool.tasks (routine.resume task s).1 (pool.run routine i task s).1.tasks
          (pool.run routine i task s).2.2 ∧
        ∃ handed', Lined limit (pool.run routine i task s).1
          (called ++ (pool.run routine i task s).2.2.filterMap Wake.granted?)
          begun handed' asked := by
  obtain ⟨result, s', hturn⟩ : ∃ result s', routine.resume task s = (result, s') := ⟨_, _, rfl⟩
  rw [hturn]
  cases houtcome : Outcome.of result with
  | paused delay =>
      obtain ⟨rest, rfl⟩ : ∃ rest, result = .ok (.paused delay rest) := by
        rcases result with failure | (result | ⟨delay', rest⟩) <;> simp_all [Outcome.of]
      rw [Pool.run_of_paused hturn]
      refine ⟨rfl, .paused rfl, handed, ?_⟩
      show Lined limit _ (called ++ []) begun handed asked
      rw [List.append_nil]
      exact hlined.pause hsuspended
  | ended ending =>
      rw [Pool.run_of_ended hturn houtcome]
      refine ⟨rfl, ?_⟩
      rcases Nat.lt_or_ge handed asked with hlt | hge
      · obtain ⟨hwakes, ⟨next, hnext, htasks⟩, hafter⟩ :=
          hlined.handOn hsuspended hlt (hall hlt) ending
        have hne : i ≠ handed := by
          rintro rfl
          simp [hnext] at hsuspended
        dsimp only
        rw [hwakes, htasks]
        exact ⟨.handedOn houtcome hnext hne, handed + 1, hafter⟩
      · obtain ⟨hwakes, htasks, hafter⟩ :=
          hlined.leave hsuspended (Nat.le_antisymm hlined.handed_le hge) ending
        dsimp only
        rw [hwakes, htasks]
        refine ⟨.left houtcome, handed, ?_⟩
        show Lined limit _ (called ++ []) begun handed asked
        rw [List.append_nil]
        exact hafter

/-- A task that is due takes its turn, unless it has to wait for a seat. -/
theorem seat (hlined : Lined limit pool called begun handed asked)
    (hdue : pool.Due called i called') :
    (∃ task, pool.tasks[i]? = some (.fresh task) ∧ pool.seated i = none ∧
        asked < pool.tasks.length ∧
        Lined limit { pool.setStatus i (.blocked task) with waiters := pool.waiters ++ [i] } called'
          begun handed (asked + 1)) ∨
      ∃ pool' task begun' handed' asked', pool.seated i = some (pool', task) ∧
        (i = begun ∧ begun' = begun + 1 ∨ i < begun ∧ begun' = begun) ∧
        (handed' < asked' → asked' = pool'.tasks.length) ∧
        Lined limit pool' called' begun' handed' asked' := by
  cases hdue with
  | call =>
      rcases hlined.called_cases with ⟨rfl, hlt, hall, -⟩ | ⟨rfl, hnone, hlt, -⟩
      · obtain ⟨task, hgranted⟩ := hlined.exists_granted (Nat.le_refl _) hlt
        refine Or.inr ⟨_, task, _, _, _, Pool.seated_of_granted hgranted, Or.inl ⟨rfl, rfl⟩, ?_,
          hlined.seat_handed hlt hgranted⟩
        intro _
        simpa [Pool.setStatus] using hall
      · obtain ⟨task, hfresh⟩ := hlined.exists_fresh (Nat.le_refl _) hlt
        cases hseated : pool.seated i with
        | none => exact Or.inl ⟨task, hfresh, rfl, hlt, hlined.wait hfresh hseated⟩
        | some seat =>
            obtain ⟨pool', task'⟩ := seat
            obtain ⟨-, status, hstatus, htask⟩ := Pool.tasks_seated hseated
            have hsame : task = task' := by
              rw [hfresh] at hstatus
              cases hstatus
              simpa [Status.task?] using htask
            subst hsame
            obtain ⟨hbegun, hafter⟩ := hlined.seat_asking hfresh hseated
            exact Or.inr ⟨pool', task, _, _, _, rfl, Or.inl ⟨hbegun.symm, by rw [hbegun]⟩,
              fun hless => absurd hless (Nat.lt_irrefl _), hafter⟩
  | @goOn _ task _ hasked htask =>
      have hbegun : i < begun := (hlined.lt_begun htask).mp rfl
      refine Or.inr ⟨_, task, begun, handed, asked, Pool.seated_of_suspended htask,
        Or.inr ⟨hbegun, rfl⟩, ?_, hlined.pause htask⟩
      intro _
      by_contra hless
      have hlt : asked < pool.tasks.length := by
        have := hlined.asked_le
        simp only [Pool.setStatus, List.length_set] at hless
        omega
      obtain ⟨other, hfresh⟩ := hlined.exists_fresh (Nat.le_refl _) hlt
      exact hasked _ (List.mem_of_getElem? hfresh) rfl

end Lined

/-! ## Steps -/

namespace Course

/-- What resuming the task of an index does to a course whose tasks stand in line: the task waits for
a seat, or it has its turn. -/
inductive Resumed (routine : Coroutine σ τ ρ ε) (limit : Option Nat) (course : Course σ τ ρ ε)
    (begun handed asked i : Nat) (next : Course σ τ ρ ε) (wakes : List Wake) : Prop
  | waits {task : τ} (hfresh : course.pool.tasks[i]? = some (.fresh task))
      (hasked : asked < course.pool.tasks.length) (hwakes : wakes = [])
      (htasks : next.pool.tasks = course.pool.tasks.set i (.blocked task))
      (hstate : next.state = course.state) (hturns : next.turns = course.turns)
      (hlined : Lined limit next.pool next.called begun handed (asked + 1))
  | turn {task : τ} {status : Status τ ρ ε} {pool' : Pool τ ρ ε} {begun' handed' asked' : Nat}
      (hseated : course.pool.seated i = some (pool', task))
      (hstatus : course.pool.tasks[i]? = some status) (htask : status.task? = some task)
      (hbegun : i = begun ∧ begun' = begun + 1 ∨ i < begun ∧ begun' = begun)
      (hstate : next.state = (routine.resume task course.state).2)
      (hturns : next.turns = course.turns ++ [⟨i, .of (routine.resume task course.state).1⟩])
      (hturned : Turned i (course.pool.tasks.set i (.suspended task))
        (routine.resume task course.state).1 next.pool.tasks wakes)
      (hlined : Lined limit next.pool next.called begun' handed' asked')

variable {routine : Coroutine σ τ ρ ε} {limit : Option Nat} {course next : Course σ τ ρ ε}
  {called' : List Nat} {begun handed asked i : Nat}

theorem resumed (routine : Coroutine σ τ ρ ε)
    (hlined : Lined limit course.pool course.called begun handed asked)
    (hdue : course.pool.Due course.called i called') :
    Resumed routine limit course begun handed asked i (course.afterResume routine i called')
      (course.pool.resume routine i course.state).2.2 := by
  rcases hlined.seat hdue with ⟨task, hfresh, hnone, hasked, hwaiting⟩ |
    ⟨pool', task, begun', handed', asked', hseated, hbegun, hall, hseat⟩
  · have hresume := Pool.resume_of_fresh hfresh hnone routine course.state
    refine .waits hfresh hasked ?_ ?_ ?_ ?_ ?_
    · rw [hresume]
    · show (course.pool.resume routine i course.state).1.tasks = _
      rw [hresume]
      rfl
    · show (course.pool.resume routine i course.state).2.1 = _
      rw [hresume]
    · show course.turns ++ course.turnOf routine i = _
      rw [turnOf, hnone, List.append_nil]
    · show Lined limit (course.pool.resume routine i course.state).1 (called' ++
        (course.pool.resume routine i course.state).2.2.filterMap Wake.granted?) _ _ _
      rw [hresume]
      show Lined limit _ (called' ++ []) _ _ _
      rw [List.append_nil]
      exact hwaiting
  · obtain ⟨htasks, status, hstatus, htask⟩ := Pool.tasks_seated hseated
    have hlt : i < course.pool.tasks.length := (List.getElem?_eq_some_iff.mp hstatus).1
    have hsuspended : pool'.tasks[i]? = some (.suspended task) := by
      rw [htasks, List.getElem?_set_self hlt]
    obtain ⟨hstate, hturned, handed'', hafter⟩ :=
      hseat.run hsuspended hall routine course.state
    have hresume := Pool.resume_of_seated hseated routine course.state
    have hlast : Lined limit (course.afterResume routine i called').pool
        (course.afterResume routine i called').called begun' handed'' asked' := by
      show Lined limit (course.pool.resume routine i course.state).1 (called' ++
        (course.pool.resume routine i course.state).2.2.filterMap Wake.granted?) _ _ _
      rw [hresume]
      exact hafter
    refine .turn hseated hstatus htask hbegun ?_ ?_ ?_ hlast
    · show (course.pool.resume routine i course.state).2.1 = _
      rw [hresume, hstate]
    · show course.turns ++ course.turnOf routine i = _
      rw [turnOf, hseated]
    · show Turned i _ _ (course.pool.resume routine i course.state).1.tasks _
      rw [hresume, ← htasks]
      exact hturned

/-! ## What holds in every course -/

/-- The tasks stand in line, those that have begun have done so in their order, and those that have
ended have done so with a turn. -/
structure Orderly (limit : Option Nat) (course : Course σ τ ρ ε) (begun handed asked : Nat) :
    Prop where
  lined : Lined limit course.pool course.called begun handed asked
  starts : (course.turns.map Turn.index).eraseDups = List.range begun
  endings : ∀ {i ending}, course.pool.tasks[i]? = some (.ended ending) ↔
    ⟨i, .ended ending⟩ ∈ course.turns

theorem orderly_ofTasks (tasks : List τ) (limit : Option Int) (state : σ) :
    Orderly (seatLimit limit) (ofTasks tasks limit state : Course σ τ ρ ε) 0 0 0 := by
  refine ⟨lined_ofTasks tasks limit, by simp [ofTasks], ?_⟩
  intro i ending
  simp [ofTasks, Pool.ofTasks]

/-- A course has failed if one of its tasks has ended with a failure. -/
theorem Orderly.failure_eq_none_iff (horderly : Orderly limit course begun handed asked) :
    course.failure = none ↔
      ∀ (i : Nat) (failure : ε), course.pool.tasks[i]? ≠ some (.ended (.error failure)) := by
  rw [Course.failure, List.findSome?_eq_none_iff]
  constructor
  · intro hnone i failure hended
    cases hnone _ (horderly.endings.mp hended)
  · intro hnone turn hturn
    match turn with
    | ⟨_, .paused _⟩ => rfl
    | ⟨_, .ended (.ok _)⟩ => rfl
    | ⟨i, .ended (.error failure)⟩ => exact absurd (horderly.endings.mpr hturn) (hnone i failure)

theorem eraseDups_concat (l : List Nat) (a : Nat) :
    (l ++ [a]).eraseDups = if a ∈ l then l.eraseDups else l.eraseDups ++ [a] := by
  rw [List.eraseDups_append]
  by_cases ha : a ∈ l
  · have hremoved : [a].removeAll l = [] := by
      simp only [List.removeAll, List.filter_cons, ha, List.elem_eq_mem, decide_true, Bool.not_true]
      rfl
    rw [hremoved, if_pos ha]
    exact List.append_nil _
  · have hkept : [a].removeAll l = [a] := by
      simp only [List.removeAll, List.filter_cons, ha, List.elem_eq_mem, decide_false,
        Bool.not_false]
      rfl
    rw [hkept, if_neg ha]
    rfl

theorem getElem?_map_plain_eq_ended {tasks : List (Status τ ρ ε)} {j : Nat} {ending : Except ε ρ} :
    (tasks.map Status.plain)[j]? = some (.ended ending) ↔ tasks[j]? = some (.ended ending) := by
  rw [List.getElem?_map]
  cases tasks[j]? with
  | none => simp
  | some status => cases status <;> simp [Status.plain]

theorem map_plain_set_blocked {tasks : List (Status τ ρ ε)} {task : τ}
    (hfresh : tasks[i]? = some (.fresh task)) :
    (tasks.set i (.blocked task)).map Status.plain = tasks.map Status.plain := by
  have hplain : (tasks.map Status.plain)[i]? = some (.fresh task) := by
    rw [List.getElem?_map, hfresh]
    rfl
  obtain ⟨hlt, hget⟩ := List.getElem?_eq_some_iff.mp hplain
  rw [List.map_set]
  show (tasks.map Status.plain).set i (.fresh task) = _
  rw [← hget, List.set_getElem_self]

/-- What a step does to an orderly course.  A task that waits is one less that has yet to ask; a turn
brings one task further. -/
inductive Stepped (routine : Coroutine σ τ ρ ε) (limit : Option Nat) (course : Course σ τ ρ ε)
    (begun handed asked : Nat) (next : Course σ τ ρ ε) : Prop
  | waits (horderly : Orderly limit next begun handed (asked + 1))
      (hasked : asked < course.pool.tasks.length) (hstate : next.state = course.state)
      (hturns : next.turns = course.turns)
      (hplain : next.pool.tasks.map Status.plain = course.pool.tasks.map Status.plain)
  | turn {begun' handed' asked' i : Nat} {status : Status τ ρ ε} {pool' : Pool τ ρ ε} {task : τ}
      (horderly : Orderly limit next begun' handed' asked')
      (hbegun : i = begun ∧ begun' = begun + 1 ∨ i < begun ∧ begun' = begun)
      (hseated : course.pool.seated i = some (pool', task))
      (hstatus : course.pool.tasks[i]? = some status) (htask : status.task? = some task)
      (hstate : next.state = (routine.resume task course.state).2)
      (hturns : next.turns = course.turns ++ [⟨i, .of (routine.resume task course.state).1⟩])
      (hplain : next.pool.tasks.map Status.plain = (course.pool.tasks.map Status.plain).set i
        (.after (routine.resume task course.state).1))

theorem Orderly.step (horderly : Orderly limit course begun handed asked)
    (hresume : Resume routine course next) :
    Stepped routine limit course begun handed asked next := by
  obtain @⟨i, called', hdue⟩ := hresume
  cases resumed routine horderly.lined hdue with
  | waits hfresh hasked hwakes htasks hstate hturns hlined =>
      have hplain := (congrArg (List.map Status.plain) htasks).trans (map_plain_set_blocked hfresh)
      refine .waits ⟨hlined, by rw [hturns, horderly.starts], ?_⟩ hasked hstate hturns hplain
      intro j ending
      rw [hturns, ← horderly.endings, ← getElem?_map_plain_eq_ended, hplain,
        getElem?_map_plain_eq_ended]
  | @turn task status pool' begun' handed' asked' hseated hstatus htask hbegun hstate hturns
      hturned hlined =>
      have hplain := hturned.plain
      rw [List.map_set, List.set_set] at hplain
      refine .turn ⟨hlined, ?_, ?_⟩ hbegun hseated hstatus htask hstate hturns hplain
      · have hmem : i ∈ course.turns.map Turn.index ↔ i < begun := by
          rw [← List.mem_eraseDups, horderly.starts, List.mem_range]
        rw [hturns, List.map_append, List.map_singleton, eraseDups_concat, horderly.starts]
        rcases hbegun with ⟨rfl, rfl⟩ | ⟨hlt, rfl⟩
        · rw [if_neg fun h => Nat.lt_irrefl i (hmem.mp h), List.range_succ]
        · rw [if_pos (hmem.mpr hlt)]
      · intro j ending
        rw [← getElem?_map_plain_eq_ended, hplain, hturns, List.mem_append, List.mem_singleton,
          Turn.mk.injEq, ← horderly.endings]
        by_cases hj : j = i
        · subst hj
          have hlt := (List.getElem?_eq_some_iff.mp hstatus).1
          have hlive : course.pool.tasks[j]? ≠ some (.ended ending) := by
            rw [hstatus]
            rintro ⟨⟩
            simp [Status.task?] at htask
          rw [List.getElem?_set_self (by simpa using hlt), Option.some.injEq,
            Status.after_eq_ended]
          simp [hlive, eq_comm]
        · rw [List.getElem?_set_ne (Ne.symm hj), getElem?_map_plain_eq_ended]
          simp [hj]

theorem Stepped.length (hstepped : Stepped routine limit course begun handed asked next) :
    next.pool.tasks.length = course.pool.tasks.length := by
  cases hstepped with
  | waits _ _ _ _ hplain => simpa using congrArg List.length hplain
  | turn _ _ _ _ _ _ _ hplain => simpa using congrArg List.length hplain

theorem Orderly.exists_step (horderly : Orderly limit course begun handed asked)
    {world : σ → σ → Prop} (hstep : Step routine world course next) :
    ∃ begun' handed' asked', Orderly limit next begun' handed' asked' := by
  cases hstep with
  | resume hresume =>
      cases horderly.step hresume with
      | waits hnext _ _ _ _ => exact ⟨_, _, _, hnext⟩
      | turn hnext _ _ _ _ _ _ _ => exact ⟨_, _, _, hnext⟩
  | world => exact ⟨_, _, _, horderly.lined, horderly.starts, horderly.endings⟩

theorem Orderly.exists_reaches {world : σ → σ → Prop}
    (horderly : Orderly limit course begun handed asked)
    (hreaches : Reaches routine world course next) :
    ∃ begun' handed' asked', Orderly limit next begun' handed' asked' := by
  induction hreaches with
  | refl => exact ⟨begun, handed, asked, horderly⟩
  | tail _ hstep ih =>
      obtain ⟨_, _, _, hnow⟩ := ih
      exact hnow.exists_step hstep

theorem length_of_reaches {world : σ → σ → Prop}
    (horderly : Orderly limit course begun handed asked)
    (hreaches : Reaches routine world course next) :
    next.pool.tasks.length = course.pool.tasks.length := by
  induction hreaches with
  | refl => rfl
  | tail hbefore hstep ih =>
      obtain ⟨_, _, _, hnow⟩ := horderly.exists_reaches hbefore
      cases hstep with
      | resume hresume => exact (hnow.step hresume).length.trans ih
      | world => exact ih

end Course

end BuildRunner.Schedule
