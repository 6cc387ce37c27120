import BuildRunner.Proofs.Execution.Beginning
import BuildRunner.Proofs.Execution.Chores
import BuildRunner.Proofs.Execution.Polling
import BuildRunner.Proofs.Schedule.Sessions

/-!
# Turns of tasks

A turn of a task begins a run, polls for one, or has nothing to do with handles.  `Trade` says what
a turn or a cancellation does to the books when the task holds a handle before it, or after it: what
is made in one turn and not held afterwards has been closed, and what is given up has been closed.
-/

namespace BuildRunner

open BuildRunner.Schedule

variable {κ : Type}

/-- A turn of a run as a turn of its task. -/
def Polled.turned (outcome : Except Failure Polled × Machine κ) :
    Except Failure (Progress TaskState TaskResult) × Machine κ :=
  (outcome.1.map Polled.progress, outcome.2)

namespace Act

theorem run_map_progress (action : Act κ Polled) (m : Machine κ) :
    (Polled.progress <$> action).run m = Polled.turned (action.run m) := by
  rw [run_map]
  rcases action.run m with ⟨failure | polled, m'⟩
  · rfl
  · rfl

/-- Being in a task is forgotten at the end of the turn. -/
theorem run_insideTask {α : Type} (action : Act κ α) (m : Machine κ) :
    (insideTask action).run m =
      (resultOf action { m with inTask := true },
        { stateAfter action { m with inTask := true } with inTask := m.inTask }) := by
  unfold insideTask
  rw [run_bind, run_get]
  dsimp only
  rw [run_bind, run_modify]
  dsimp only
  rw [run_ensuring]
  rfl

/-- Running tasks together is running them in a pool. -/
theorem run_runTogether [Program κ] (tasks : List Task) (limit : Option Int) (m : Machine κ) :
    (runTogether tasks limit).run m =
      ((runPool coroutine clock (tasks.map .fresh) limit m).1.mapError fun failure =>
          failure.getD .stalled,
        (runPool coroutine clock (tasks.map .fresh) limit m).2) := by
  unfold runTogether
  rw [run_bind, run_get]
  dsimp only
  rw [run_bind, run_set]
  rcases (runPool coroutine clock (tasks.map TaskState.fresh) limit m).1 with
    (_ | failure) | results
  · rfl
  · rfl
  · rfl

theorem quiet_inTask (m : Machine κ) (inTask : Bool) : Quiet m { m with inTask } :=
  ⟨rfl, rfl, rfl, rfl, rfl, rfl, rfl, rfl⟩

theorem respects_log (line : String) : Respects Quiet (log line : Act κ Unit) :=
  fun _ => ⟨rfl, rfl, rfl, rfl, rfl, rfl, rfl, rfl⟩

theorem respects_goOnStepping (name : String) (logged left : Nat) (abort : Option String) :
    Respects Quiet (goOnStepping name logged left abort :
      Act κ (Progress TaskState TaskResult)) := by
  unfold goOnStepping
  split
  · exact respects_bind isFrame_quiet respects_suspension fun _ => respects_pure isFrame_quiet _
  · exact respects_throw isFrame_quiet _
  · exact respects_bind isFrame_quiet (respects_log _) fun _ => respects_pure isFrame_quiet _

end Act

/-! ## Handles that tasks hold -/

/-- The handle of a task between two of its turns. -/
def TaskState.handle? : TaskState → Option Nat
  | .waiting run => some run.handle
  | _ => none

/-- Whether the next turn of a task is one of a run. -/
def TaskState.isRun : TaskState → Bool
  | .fresh (.job _) => true
  | .waiting _ => true
  | _ => false

def Schedule.Stage.handle? : Stage TaskState → Option Nat
  | .suspended state => state.handle?
  | _ => none

/-- What happens to the books when a task holds one handle before, and another one after. -/
inductive Trade (m m' : Machine κ) : (before after : Option Nat) → Prop
  | same {handle : Option Nat} (hsame : SameBooks m m') : Trade m m' handle handle
  | started {id : Nat} (hstarted : Started m m' id) : Trade m m' none (some id)
  | closed {id : Nat} (hclosed : Closed m m' id) : Trade m m' (some id) none
  | both {id : Nat} {m₁ : Machine κ} (hstarted : Started m m₁ id) (hclosed : Closed m₁ m' id) :
      Trade m m' none none

theorem Trade.of_sameBooks {m m₁ m₂ m' : Machine κ} {before after : Option Nat}
    (hbefore : SameBooks m m₁) (htrade : Trade m₁ m₂ before after) (hafter : SameBooks m₂ m') :
    Trade m m' before after := by
  cases htrade with
  | same hsame =>
      exact .same (isFrame_sameBooks.trans (isFrame_sameBooks.trans hbefore hsame) hafter)
  | started hstarted =>
      exact .started ((hstarted.of_sameBooks_left hbefore).of_sameBooks_right hafter)
  | closed hclosed => exact .closed ((hclosed.of_sameBooks_left hbefore).of_sameBooks_right hafter)
  | both hstarted hclosed =>
      exact .both (hstarted.of_sameBooks_left hbefore) (hclosed.of_sameBooks_right hafter)

/-- The handle that a start has made is open. -/
theorem Started.isOpen {m m' : Machine κ} {id : Nat} (hstarted : Started m m' id) :
    ∃ owned, m'.accounts[id]? = some (owned, false) := by
  obtain ⟨owned, haccounts, -⟩ := hstarted.handle
  refine ⟨owned, ?_⟩
  rw [haccounts, hstarted.id, List.getElem?_concat_length]

theorem Over.trade {call : Call} {m m' : Machine κ} (hover : Over call m m') :
    Trade m m' none none := by
  cases hover with
  | unstarted hspawns hbooks =>
      exact .same (isFrame_sameBooks.trans hbooks (Act.sameBooks_cleanUp call _))
  | ended hcall hspawns hstarted hsaved hends =>
      obtain ⟨owned, hopen⟩ := hstarted.isOpen
      exact .both hstarted (hends.closed hopen)
  | lost hspawns hstarted hlost =>
      obtain ⟨owned, hopen⟩ := hstarted.isOpen
      obtain ⟨m₂, hrun, hclosed⟩ := Act.closed_close hopen
      rw [stateAfter_of_run hrun]
      exact .both hstarted (hclosed.of_sameBooks_right (Act.sameBooks_cleanUp call _))

namespace Act

variable [Program κ]

/-- A job has nothing to start, or its first turn is that of its call. -/
theorem begun_turn (hload : LoadsQuietly κ) (job : Job) (m : Machine κ) :
    (∃ result m', (turn (.fresh (.job job))).run m = (result, m') ∧
        Stage.after result = (.over : Stage TaskState) ∧ Filing Disk.Stays m m' ∧
          ∀ call, resultOf (prepare job : Act κ (JobResult ⊕ Call)) m ≠ .ok (.inr call)) ∨
      ∃ call m₁ outcome, (prepare job : Act κ (JobResult ⊕ Call)).run m = (.ok (.inr call), m₁) ∧
        outcome = (beginCall call).run m₁ ∧ Begun call m₁ outcome ∧
          (turn (.fresh (.job job))).run m = Polled.turned outcome := by
  have hturn : (turn (.fresh (.job job)) : Act κ (Progress TaskState TaskResult)).run m =
      Polled.turned ((beginJob job).run m) := run_map_progress _ m
  rw [hturn]
  unfold beginJob
  rw [run_bind, resultOf]
  rcases hprepare : (prepare job : Act κ (JobResult ⊕ Call)).run m with
    ⟨failure | result | call, m₁⟩
  · exact Or.inl ⟨_, _, rfl, rfl, (respects_prepare job).of_run hprepare, by simp⟩
  · exact Or.inl ⟨_, _, rfl, rfl, (respects_prepare job).of_run hprepare, by simp⟩
  · exact Or.inr ⟨call, m₁, _, rfl, rfl, begun_beginCall hload call m₁, rfl⟩

omit [Program κ] in
theorem handle?_goOnStepping (name : String) (logged left : Nat) (abort : Option String)
    (m : Machine κ) :
    (Stage.after (resultOf (goOnStepping name logged left abort) m)).handle? = none := by
  unfold goOnStepping
  split
  · rw [resultOf, run_bind]
    rcases (suspension : Act κ (Option Nat)).run m with ⟨failure | delay, m'⟩
    · rfl
    · rfl
  · rfl
  · rfl

theorem trade_job (hload : LoadsQuietly κ) (job : Job) (m : Machine κ) :
    Trade m (stateAfter (turn (.fresh (.job job))) m) none
      (Stage.after (resultOf (turn (.fresh (.job job))) m)).handle? := by
  rcases begun_turn hload job m with
    ⟨result, m', hrun, hover, hfiling, -⟩ | ⟨call, m₁, outcome, hprepare, -, hbegun, hrun⟩
  · rw [stateAfter_of_run hrun, resultOf_of_run hrun, hover]
    exact .same (.of_filing hfiling (congrArg List.length hfiling.disk.files).ge)
  · have hfiling := (respects_prepare job).of_run hprepare
    have hbooks : SameBooks m m₁ :=
      .of_filing hfiling (congrArg List.length hfiling.disk.files).ge
    rw [stateAfter, resultOf, hrun]
    cases hbegun with
    | suspended hcall hspawns hstarted hsaved =>
        exact .started (hstarted.of_sameBooks_left hbooks)
    | finished hover => exact hover.trade.of_sameBooks hbooks (isFrame_sameBooks.refl _)
    | failed hover => exact hover.trade.of_sameBooks hbooks (isFrame_sameBooks.refl _)

theorem trade_waiting (waiting : Waiting) {m : Machine κ}
    (hopen : ∃ owned, m.accounts[waiting.handle]? = some (owned, false)) :
    Trade m (stateAfter (turn (.waiting waiting)) m) (some waiting.handle)
      (Stage.after (resultOf (turn (.waiting waiting)) m)).handle? := by
  obtain ⟨owned, howned⟩ := hopen
  have hrun : (turn (.waiting waiting) : Act κ (Progress TaskState TaskResult)).run m =
      Polled.turned ((poll waiting).run m) := run_map_progress _ m
  have hwaited := waited_poll waiting m
  rw [stateAfter, resultOf, hrun]
  generalize (poll waiting).run m = outcome at hwaited
  cases hwaited with
  | suspended hquiet => exact .same (.of_quiet hquiet)
  | finished hbefore hcollect =>
      exact .closed ((Ends.intro hbefore ((respects_collect _ _).of_run hcollect)).closed howned)
  | failed hends => exact .closed (hends.closed howned)

theorem sameBooks_turn {state : TaskState} (hrun : state.isRun = false) :
    Respects SameBooks (turn state : Act κ (Progress TaskState TaskResult)) := by
  have hquiet : ∀ {action : Act κ (Progress TaskState TaskResult)},
      Respects Quiet action → Respects SameBooks action :=
    fun haction => haction.mono fun _ _ => .of_quiet
  cases state with
  | fresh task =>
      cases task with
      | job job => cases hrun
      | steps name count abort =>
          exact hquiet (respects_bind isFrame_quiet (respects_log _) fun _ =>
            respects_goOnStepping _ _ _ _)
      | after chores =>
          exact hquiet (respects_bind isFrame_quiet respects_suspension fun _ =>
            respects_pure isFrame_quiet _)
  | waiting waiting => cases hrun
  | stepping name logged left abort =>
      exact hquiet (respects_bind isFrame_quiet (respects_log _) fun _ =>
        respects_goOnStepping _ _ _ _)
  | choring chores =>
      exact respects_bind isFrame_sameBooks
        (respects_forM isFrame_sameBooks fun chore _ => sameBooks_runChore chore) fun _ =>
          respects_pure isFrame_sameBooks _

/-- A task that is not a run never gets a handle. -/
theorem handle?_turn {state : TaskState} (hrun : state.isRun = false) (m : Machine κ) :
    (Stage.after (resultOf (turn state) m)).handle? = none := by
  cases state with
  | fresh task =>
      cases task with
      | job job => cases hrun
      | steps name count abort => exact handle?_goOnStepping name 0 count abort _
      | after chores =>
          unfold turn
          rw [resultOf, run_bind]
          rcases (suspension : Act κ (Option Nat)).run m with ⟨failure | delay, m'⟩
          · rfl
          · rfl
  | waiting waiting => cases hrun
  | stepping name logged left abort =>
      exact handle?_goOnStepping name (logged + 1) (left - 1) abort _
  | choring chores =>
      unfold turn
      rw [resultOf, run_bind]
      rcases (chores.forM runChore : Act κ PUnit).run m with ⟨failure | _, m'⟩
      · rfl
      · rfl

/-- The handle of a task passes through its turn. -/
theorem trade_turn (hload : LoadsQuietly κ) (state : TaskState) (m : Machine κ)
    (hopen : ∀ id, state.handle? = some id → ∃ owned, m.accounts[id]? = some (owned, false)) :
    Trade m (stateAfter (turn state) m) state.handle?
      (Stage.after (resultOf (turn state) m)).handle? := by
  have hother : state.isRun = false → state.handle? = none →
      Trade m (stateAfter (turn state) m) state.handle?
        (Stage.after (resultOf (turn state) m)).handle? := by
    intro hrun hnone
    rw [handle?_turn hrun, hnone]
    exact .same (sameBooks_turn hrun m)
  cases state with
  | waiting waiting => exact trade_waiting waiting (hopen waiting.handle rfl)
  | stepping name logged left abort => exact hother rfl rfl
  | choring chores => exact hother rfl rfl
  | fresh task =>
      cases task with
      | job job => exact trade_job hload job m
      | steps name count abort => exact hother rfl rfl
      | after chores => exact hother rfl rfl

/-! ## Turns within a session -/

theorem resume_eq (state : TaskState) (m : Machine κ) :
    coroutine.resume state m =
      (resultOf (turn state) { m with inTask := true },
        { stateAfter (turn state) { m with inTask := true } with inTask := m.inTask }) :=
  run_insideTask (turn state) m

theorem cancel_eq (state : TaskState) (m : Machine κ) :
    coroutine.cancel state m =
      { stateAfter (cancel state) { m with inTask := true } with inTask := m.inTask } :=
  congrArg Prod.snd (run_insideTask (cancel state) m)

/-- A turn that finds the program running changes nothing. -/
theorem resume_waiting_of_running {waiting : Waiting} {m : Machine κ} {index : Nat}
    {handle : Handle} {settings : Settings} (hsettings : Settings.read m.environment = .ok settings)
    (hwatches : m.Watches waiting.handle index handle) (hrunning : m.answerOf index = .running) :
    coroutine.resume (.waiting waiting) m =
      (.ok (.paused settings.pollDelay (.waiting waiting)), m) := by
  have hinside : Machine.Watches { m with inTask := true } waiting.handle index handle :=
    hwatches.of_handles rfl
  have hpoll : (poll waiting).run { m with inTask := true } =
      (.ok (.suspended settings.pollDelay waiting), { m with inTask := true }) :=
    run_poll_of_running hinside hrunning hsettings
  rw [resume_eq, resultOf, stateAfter]
  unfold turn
  rw [run_map_progress, hpoll]
  rfl

/-- A turn that finds the program ended is the last one of the run. -/
theorem resume_waiting_of_ended {waiting : Waiting} {m : Machine κ} {index : Nat} {handle : Handle}
    (hwatches : m.Watches waiting.handle index handle) (hended : m.answerOf index ≠ .running) :
    ∃ outcome : Except Failure JobResult, (coroutine.resume (.waiting waiting) m).1 =
      outcome.map fun result => .ended (.run result) := by
  have hinside : Machine.Watches { m with inTask := true } waiting.handle index handle :=
    hwatches.of_handles rfl
  have hresult : (coroutine.resume (.waiting waiting) m).1 =
      (resultOf (poll waiting) { m with inTask := true }).map Polled.progress := by
    rw [resume_eq]
    exact congrArg Prod.fst (run_map_progress (poll waiting) { m with inTask := true })
  rw [hresult]
  cases hpolled : resultOf (poll waiting) { m with inTask := true } with
  | error failure => exact ⟨.error failure, rfl⟩
  | ok polled =>
      cases polled with
      | finished result => exact ⟨.ok result, rfl⟩
      | suspended delay rest =>
          exact absurd hpolled (not_suspended_of_ended hinside hended delay rest)

/-- The turn of a waiting run polls for it. -/
theorem waited_resume (waiting : Waiting) (m : Machine κ) :
    ∃ outcome, Waited waiting { m with inTask := true } outcome ∧
      coroutine.resume (.waiting waiting) m =
        ((Polled.turned outcome).1, { outcome.2 with inTask := m.inTask }) := by
  have hrun : (turn (.waiting waiting) : Act κ (Progress TaskState TaskResult)).run
      { m with inTask := true } = Polled.turned ((poll waiting).run { m with inTask := true }) :=
    run_map_progress _ _
  refine ⟨_, waited_poll waiting { m with inTask := true }, ?_⟩
  rw [resume_eq, resultOf, stateAfter, hrun]
  rfl

/-- The first turn of a job ends it where there is nothing to start, and begins its call else. -/
theorem begun_resume (hload : LoadsQuietly κ) (job : Job) (m : Machine κ) :
    (∃ result m', coroutine.resume (.fresh (.job job)) m = (result, m') ∧
        Stage.after result = (.over : Stage TaskState) ∧ Filing Disk.Stays m m' ∧
          ∀ call, resultOf (prepare job) { m with inTask := true } ≠ .ok (.inr call)) ∨
      ∃ call m₁ outcome, (prepare job).run { m with inTask := true } = (.ok (.inr call), m₁) ∧
        outcome = (beginCall call).run m₁ ∧ Begun call m₁ outcome ∧
          coroutine.resume (.fresh (.job job)) m =
            ((Polled.turned outcome).1, { outcome.2 with inTask := m.inTask }) := by
  rw [resume_eq, resultOf, stateAfter]
  rcases begun_turn hload job { m with inTask := true } with
    ⟨result, m', hrun, hover, hfiling, hnone⟩ | ⟨call, m₁, outcome, hprepare, heq, hbegun, hrun⟩
  · rw [hrun]
    have hquiet : ∀ (m : Machine κ) inTask, Filing Disk.Stays m { m with inTask } :=
      fun m inTask => .of_quiet isFrame_stays (quiet_inTask m inTask)
    exact Or.inl ⟨result, _, rfl, hover, isFrame_preparing.trans (hquiet m true)
      (isFrame_preparing.trans hfiling (hquiet m' m.inTask)), hnone⟩
  · rw [hrun]
    exact Or.inr ⟨call, m₁, outcome, hprepare, heq, hbegun, rfl⟩

theorem trade_resume (hload : LoadsQuietly κ) (state : TaskState) (m : Machine κ)
    (hopen : ∀ id, state.handle? = some id → ∃ owned, m.accounts[id]? = some (owned, false)) :
    Trade m (coroutine.resume state m).2 state.handle?
      (Stage.after (coroutine.resume state m).1).handle? := by
  rw [resume_eq]
  exact (trade_turn hload state { m with inTask := true } hopen).of_sameBooks
    (.of_quiet (quiet_inTask m true)) (.of_quiet (quiet_inTask _ m.inTask))

theorem trade_cancel (state : TaskState) (m : Machine κ)
    (hopen : ∀ id, state.handle? = some id → ∃ owned, m.accounts[id]? = some (owned, false)) :
    Trade m (coroutine.cancel state m) state.handle? none := by
  rw [cancel_eq]
  refine Trade.of_sameBooks (.of_quiet (quiet_inTask m true)) ?_
    (.of_quiet (quiet_inTask _ m.inTask))
  cases state with
  | waiting waiting =>
      obtain ⟨owned, howned⟩ := hopen waiting.handle rfl
      exact .closed ((ends_abandon waiting { m with inTask := true }).closed howned)
  | fresh task => exact .same (isFrame_sameBooks.refl _)
  | stepping name logged left abort => exact .same (isFrame_sameBooks.refl _)
  | choring chores => exact .same (isFrame_sameBooks.refl _)

end Act

end BuildRunner
