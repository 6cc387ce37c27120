import BuildRunner.Proofs.Execution.Turns
import BuildRunner.Proofs.Machine.Ticking
import BuildRunner.Proofs.Schedule.Rounds

/-!
# Tasks that report their steps

A task that reports its steps logs the start, and each step after it has suspended.  With a poll
interval of zero the tasks go round, so that the trace is known from the numbers of their steps.
-/

namespace BuildRunner

open BuildRunner.Schedule

variable {κ : Type}

/-- The lines that a task with a number of steps logs in one of its turns. -/
def stepLines (name : String) (count turn : Nat) : List String :=
  (if turn = 0 then name ++ ":start" else name ++ ":" ++ toString turn) ::
    if turn = count then [name ++ ":end"] else []

/-- The lines of all turns of such a task. -/
def stepTurns (task : String × Nat) : List (List String) :=
  (List.range (task.2 + 1)).map (stepLines task.1 task.2)

/-- The task that reports a number of steps. -/
def Task.ofSteps (task : String × Nat) : Task := .steps task.1 task.2 none

/-- Programs are polled without delay. -/
def Machine.PollsAtOnce (m : Machine κ) : Prop :=
  ∃ settings, Settings.read m.environment = .ok settings ∧ settings.pollDelay = some 0

namespace Act

theorem run_log (line : String) (m : Machine κ) :
    (log line : Act κ Unit).run m = (.ok (), { m with trace := m.trace ++ [line] }) := rfl

theorem run_goOnStepping_zero (name : String) (logged : Nat) (m : Machine κ) :
    (goOnStepping name logged 0 none : Act κ (Progress TaskState TaskResult)).run m =
      (.ok (.ended (.name name)), { m with trace := m.trace ++ [name ++ ":end"] }) := rfl

theorem run_goOnStepping_succ (name : String) (logged left : Nat) {m : Machine κ}
    (hpolls : m.PollsAtOnce) :
    (goOnStepping name logged (left + 1) none : Act κ (Progress TaskState TaskResult)).run m =
      (.ok (.paused (some 0) (.stepping name logged (left + 1) none)), m) := by
  obtain ⟨settings, hsettings, hdelay⟩ := hpolls
  unfold goOnStepping suspension
  rw [run_bind, run_bind, run_settings, hsettings]
  dsimp only
  rw [run_pure, hdelay]
  rfl

variable [Program κ]

theorem run_turn_steps (name : String) (count : Nat) (m : Machine κ) :
    (turn (.fresh (.steps name count none)) : Act κ (Progress TaskState TaskResult)).run m =
      (goOnStepping name 0 count none).run
        { m with trace := m.trace ++ [name ++ ":start"] } := by
  unfold turn
  rw [run_bind, run_log]

theorem run_turn_stepping (name : String) (logged left : Nat) (m : Machine κ) :
    (turn (.stepping name logged left none) : Act κ (Progress TaskState TaskResult)).run m =
      (goOnStepping name (logged + 1) (left - 1) none).run
        { m with trace := m.trace ++ [name ++ ":" ++ toString (logged + 1)] } := by
  unfold turn
  rw [run_bind, run_log]

/-- A turn that logs a line and has no more steps to come is the last. -/
theorem resume_of_last {state : TaskState} {name line : String} {logged : Nat}
    (hturn : ∀ m : Machine κ, (turn state : Act κ (Progress TaskState TaskResult)).run m =
      (goOnStepping name logged 0 none).run { m with trace := m.trace ++ [line] })
    (m : Machine κ) :
    coroutine.resume state m =
      (.ok (.ended (.name name)), { m with trace := m.trace ++ [line, name ++ ":end"] }) := by
  rw [resume_eq, resultOf, stateAfter, hturn, run_goOnStepping_zero]
  simp

theorem resume_of_more {state : TaskState} {name line : String} {logged left : Nat}
    (hturn : ∀ m : Machine κ, (turn state : Act κ (Progress TaskState TaskResult)).run m =
      (goOnStepping name logged (left + 1) none).run { m with trace := m.trace ++ [line] })
    {m : Machine κ} (hpolls : m.PollsAtOnce) :
    coroutine.resume state m =
      (.ok (.paused (some 0) (.stepping name logged (left + 1) none)),
        { m with trace := m.trace ++ [line] }) := by
  have hgoes : ({ m with inTask := true, trace := m.trace ++ [line] } : Machine κ).PollsAtOnce :=
    hpolls
  rw [resume_eq, resultOf, stateAfter, hturn]
  dsimp only
  rw [run_goOnStepping_succ name logged left hgoes]

/-- Wherever such a task stands, it writes the lines of the turns that are left to it. -/
theorem writes_of_turn {state : TaskState} {name : String} {count turns logged : Nat}
    (hleft : logged + turns = count)
    (hturn : ∀ m : Machine κ, (turn state : Act κ (Progress TaskState TaskResult)).run m =
      (goOnStepping name logged turns none).run { m with trace := m.trace ++
        [if logged = 0 then name ++ ":start" else name ++ ":" ++ toString logged] }) :
    (@coroutine κ _).Writes Machine.PollsAtOnce Machine.trace state
      ((List.range' logged (turns + 1)).map (stepLines name count)) := by
  induction turns generalizing state logged with
  | zero =>
      have hlines : stepLines name count logged =
          [if logged = 0 then name ++ ":start" else name ++ ":" ++ toString logged,
            name ++ ":end"] := by
        have hlast : logged = count := hleft
        simp only [stepLines, hlast, if_true]
      rw [List.range'_one, List.map_singleton, hlines]
      exact .last fun {m} hpolls => ⟨_, resume_of_last hturn m, hpolls, rfl⟩
  | succ turns ih =>
      have hlines : stepLines name count logged =
          [if logged = 0 then name ++ ":start" else name ++ ":" ++ toString logged] := by
        have hmore : logged ≠ count := by omega
        simp only [stepLines, hmore, if_false]
      rw [List.range'_succ, List.map_cons, hlines]
      refine .more (fun {m} hpolls => ⟨_, resume_of_more hturn hpolls, hpolls, rfl⟩) ?_
      refine ih (by omega) fun m => ?_
      rw [run_turn_stepping, if_neg (Nat.succ_ne_zero logged)]
      rfl

theorem writes_ofSteps (task : String × Nat) :
    (@coroutine κ _).Writes Machine.PollsAtOnce Machine.trace (.fresh (.ofSteps task))
      (stepTurns task) := by
  rw [stepTurns, List.range_eq_range']
  exact writes_of_turn (Nat.zero_add _) fun m => run_turn_steps task.1 task.2 m

theorem unwritten_elapse (ticks : Nat) (m : Machine κ) :
    Unwritten Machine.PollsAtOnce Machine.trace m (clock.elapse ticks m) := by
  rintro ⟨settings, hsettings, hdelay⟩
  refine ⟨⟨settings, ?_, hdelay⟩, m.trace_elapse ticks⟩
  rw [show (clock.elapse ticks m).environment = m.environment from m.environment_elapse ticks]
  exact hsettings

/-- The turns of the task of an index, none where there is no such task. -/
def turnsAt (tasks : List (String × Nat)) (i : Nat) : List (List String) :=
  (tasks[i]?.map stepTurns).getD []

theorem flatMap_turnsAt (tasks : List (String × Nat)) (f : List (List String) → List String) :
    ((List.range tasks.length).flatMap fun i => f (turnsAt tasks i)) =
      tasks.flatMap fun task => f (stepTurns task) := by
  induction tasks with
  | nil => rfl
  | cons task tasks ih =>
      rw [List.length_cons, List.range_succ_eq_map, List.flatMap_cons, List.flatMap_map,
        List.flatMap_cons, ← ih]
      rfl

theorem writes_tasks (tasks : List (String × Nat)) {i : Nat} {state : TaskState}
    (hstate : ((tasks.map Task.ofSteps).map TaskState.fresh)[i]? = some state) :
    (@coroutine κ _).Writes Machine.PollsAtOnce Machine.trace state (turnsAt tasks i) := by
  rw [List.map_map, List.getElem?_map, Option.map_eq_some_iff] at hstate
  obtain ⟨task, htask, rfl⟩ := hstate
  have hturns : turnsAt tasks i = stepTurns task := by rw [turnsAt, htask]; rfl
  rw [hturns]
  exact writes_ofSteps task

/-- A machine that polls without delay. -/
def restlessMachine : Machine Pause where
  disk := { tree := .dir [] none, cwd := .root }
  environment := [("BUILDOS_POLL_INTERVAL", "0")]

theorem pollsAtOnce_restlessMachine : restlessMachine.PollsAtOnce :=
  ⟨_, rfl, by decide +kernel⟩

end Act

end BuildRunner
