import BuildRunner.Execution.Blocking
import BuildRunner.Proofs.Execution.Clearing
import BuildRunner.Proofs.Execution.Releasing

/-!
# Sessions release what they take

Whatever the tasks of a session do and in whatever order they have their turns, the handles that
suspended tasks hold are the open ones among those that were made.  So nothing is left to close when
no task is suspended, be it that all have ended or that the last ones have been cancelled.
-/

namespace BuildRunner

open BuildRunner.Schedule

variable {κ : Type}

/-- What may happen between two turns: anything that leaves the books alone and the directory for
temporary files absolute. -/
structure Undisturbed (m m' : Machine κ) : Prop where
  books : SameBooks m m'
  scratch : m.environment.HasAbsoluteScratch → m'.environment.HasAbsoluteScratch

/-- The handle of a task of a session. -/
def Schedule.Session.holds (session : Session (Machine κ) TaskState) (index : Nat) : Option Nat :=
  (session.tasks index).bind Stage.handle?

/-- What holds throughout a session that began with the machine `m₀`. -/
structure Kept (m₀ : Machine κ) (session : Session (Machine κ) TaskState) : Prop where
  fresh : ∀ {index state}, session.tasks index = some (.idle state) → ∃ task, state = .fresh task
  scratch : session.state.environment.HasAbsoluteScratch
  captures : ∀ {index waiting}, session.tasks index = some (.suspended (.waiting waiting)) →
    waiting.call.capture.IsAbsolute
  holdings : ∃ made since, Holdings m₀ session.state made since session.holds

theorem Kept.isOpen {m₀ : Machine κ} {session : Session (Machine κ) TaskState} {index : Nat}
    (hkept : Kept m₀ session) {id : Nat} (hheld : session.holds index = some id) :
    ∃ owned, session.state.accounts[id]? = some (owned, false) := by
  obtain ⟨made, since, hholdings⟩ := hkept.holdings
  obtain ⟨k, owned, rfl, hk⟩ := hholdings.isOpen hheld
  refine ⟨owned, ?_⟩
  rw [hholdings.books.accounts, List.getElem?_append_right (Nat.le_add_right _ _),
    Nat.add_sub_cancel_left, hk]

theorem kept_ofTasks {m₀ : Machine κ} (hscratch : m₀.environment.HasAbsoluteScratch)
    (tasks : List Task) : Kept m₀ (.ofTasks (tasks.map .fresh) m₀) := by
  have htasks : ∀ index, (Session.ofTasks (tasks.map TaskState.fresh) m₀).tasks index =
      tasks[index]?.map fun task => .idle (.fresh task) := by
    intro index
    show (tasks.map TaskState.fresh)[index]?.map Stage.idle = _
    rw [List.getElem?_map, Option.map_map]
    rfl
  refine ⟨?_, hscratch, ?_, [], [], .refl m₀, ?_, by simp, ?_⟩
  · intro index state hstate
    rw [htasks] at hstate
    obtain ⟨task, -, hsame⟩ := Option.map_eq_some_iff.mp hstate
    cases hsame
    exact ⟨task, rfl⟩
  · intro index waiting hwaiting
    rw [htasks] at hwaiting
    obtain ⟨task, -, hsame⟩ := Option.map_eq_some_iff.mp hwaiting
    cases hsame
  · intro index id hheld
    rw [Session.holds, htasks] at hheld
    cases htask : tasks[index]? <;> simp [htask, Stage.handle?] at hheld
  · intro index other id hheld
    rw [Session.holds, htasks] at hheld
    cases htask : tasks[index]? <;> simp [htask, Stage.handle?] at hheld

/-- The call that a task has yet to begin, or waits for. -/
def Schedule.Stage.call? (m : Machine κ) : Stage TaskState → Option Call
  | .idle state => state.call? m
  | .suspended (.waiting run) => some run.call
  | _ => none

/-- Whatever run is over with a step has left none of its scratch files. -/
def ClearsCaptures (session next : Session (Machine κ) TaskState) : Prop :=
  ∀ {index stage call}, session.tasks index = some stage → stage.call? session.state = some call →
    next.tasks index = some .over → call.capture.IsCleared next.state.disk

theorem Kept.isAbsolute_call {m₀ : Machine κ} {session : Session (Machine κ) TaskState}
    (hkept : Kept m₀ session) {index : Nat} {state : TaskState} {call : Call}
    (htask : session.tasks index = some (.idle state) ∨
      session.tasks index = some (.suspended state))
    (hcall : state.call? session.state = some call) : call.capture.IsAbsolute := by
  cases state with
  | fresh task =>
      cases task with
      | job job =>
          rw [TaskState.call?_fresh] at hcall
          have hrun := run_eq (Act.prepare job) { session.state with inTask := true }
          rw [hcall] at hrun
          refine isAbsolute_of_prepare ?_ hrun
          exact hkept.scratch
      | steps name count abort => cases hcall
      | after chores => cases hcall
  | waiting waiting =>
      cases hcall
      rcases htask with hidle | hsuspended
      · obtain ⟨task, hfresh⟩ := hkept.fresh hidle
        cases hfresh
      · exact hkept.captures hsuspended
  | stepping name logged left abort => cases hcall
  | choring chores => cases hcall

namespace Act

variable [Program κ] {m₀ : Machine κ} {session : Session (Machine κ) TaskState}

theorem environment_resume (hload : LoadsQuietly κ) (state : TaskState) (m : Machine κ) :
    (coroutine.resume state m).2.environment = m.environment := by
  rw [resume_eq]
  exact sameEnvironment_turn hload state { m with inTask := true }

theorem environment_cancel (state : TaskState) (m : Machine κ) :
    (coroutine.cancel state m).environment = m.environment := by
  rw [cancel_eq]
  exact (sameMemory_cancel state { m with inTask := true }).environment

/-- The turn of a task, which was idle or suspended, keeps what holds throughout the session. -/
theorem kept_afterTurn (hload : LoadsQuietly κ) (hm₀ : ∀ i ∈ m₀.held, i < m₀.disk.files.length)
    (hkept : Kept m₀ session) {index : Nat} {state : TaskState}
    (hheld : session.holds index = state.handle?)
    (hcall : ∀ call, state.call? session.state = some call → call.capture.IsAbsolute) :
    Kept m₀ (session.afterTurn coroutine index state) := by
  have htrade := trade_resume hload state session.state fun id hid => hkept.isOpen (hheld.trans hid)
  rw [← hheld] at htrade
  obtain ⟨made, since, hholdings⟩ := hkept.holdings
  obtain ⟨made', since', hafter⟩ := hholdings.of_trade hm₀ htrade
  refine ⟨?_, ?_, ?_, made', since', ?_⟩
  · intro i other hi
    by_cases hindex : i = index
    · subst hindex
      rw [Session.tasks_afterTurn_self] at hi
      rcases hresult : (coroutine.resume state session.state).1 with failure | (result | ⟨d, rest⟩)
      · simp [hresult, Stage.after] at hi
      · simp [hresult, Stage.after] at hi
      · simp [hresult, Stage.after] at hi
    · rw [Session.tasks_afterTurn_of_ne _ _ hindex] at hi
      exact hkept.fresh hi
  · show (coroutine.resume state session.state).2.environment.HasAbsoluteScratch
    rw [environment_resume hload]
    exact hkept.scratch
  · intro i waiting hi
    by_cases hindex : i = index
    · subst hindex
      rw [Session.tasks_afterTurn_self, Option.some.injEq] at hi
      exact hcall _ (call?_of_suspended hload hi)
    · rw [Session.tasks_afterTurn_of_ne _ _ hindex] at hi
      exact hkept.captures hi
  · have hholds : (session.afterTurn coroutine index state).holds = Function.update session.holds index
        (Stage.after (coroutine.resume state session.state).1).handle? := by
      funext i
      by_cases hindex : i = index
      · subst hindex
        rw [Session.holds, Session.tasks_afterTurn_self, Function.update_self]
        rfl
      · rw [Session.holds, Session.tasks_afterTurn_of_ne _ _ hindex, Function.update_of_ne hindex]
        rfl
    rw [hholds]
    exact hafter

theorem kept_afterCancel (hm₀ : ∀ i ∈ m₀.held, i < m₀.disk.files.length)
    (hkept : Kept m₀ session) {index : Nat} {state : TaskState}
    (hheld : session.holds index = state.handle?) :
    Kept m₀ (session.afterCancel coroutine index state) := by
  have htrade := trade_cancel state session.state fun id hid => hkept.isOpen (hheld.trans hid)
  rw [← hheld] at htrade
  obtain ⟨made, since, hholdings⟩ := hkept.holdings
  obtain ⟨made', since', hafter⟩ := hholdings.of_trade hm₀ htrade
  refine ⟨?_, ?_, ?_, made', since', ?_⟩
  · intro i other hi
    by_cases hindex : i = index
    · subst hindex
      rw [Session.tasks_afterCancel_self] at hi
      cases hi
    · rw [Session.tasks_afterCancel_of_ne _ _ hindex] at hi
      exact hkept.fresh hi
  · show (coroutine.cancel state session.state).environment.HasAbsoluteScratch
    rw [environment_cancel]
    exact hkept.scratch
  · intro i waiting hi
    by_cases hindex : i = index
    · subst hindex
      rw [Session.tasks_afterCancel_self] at hi
      cases hi
    · rw [Session.tasks_afterCancel_of_ne _ _ hindex] at hi
      exact hkept.captures hi
  · have hholds : (session.afterCancel coroutine index state).holds =
        Function.update session.holds index none := by
      funext i
      by_cases hindex : i = index
      · subst hindex
        rw [Session.holds, Session.tasks_afterCancel_self, Function.update_self]
        rfl
      · rw [Session.holds, Session.tasks_afterCancel_of_ne _ _ hindex,
          Function.update_of_ne hindex]
        rfl
    rw [hholds]
    exact hafter

variable {next : Session (Machine κ) TaskState}

theorem kept_step (hload : LoadsQuietly κ) (hm₀ : ∀ i ∈ m₀.held, i < m₀.disk.files.length)
    (hkept : Kept m₀ session) (hstep : Session.Step coroutine Undisturbed session next) :
    Kept m₀ next := by
  cases hstep with
  | @begin index state htask =>
      refine kept_afterTurn hload hm₀ hkept ?_ fun call hcall =>
        hkept.isAbsolute_call (Or.inl htask) hcall
      obtain ⟨task, rfl⟩ := hkept.fresh htask
      rw [Session.holds, htask]
      rfl
  | @resume index state htask =>
      refine kept_afterTurn hload hm₀ hkept ?_ fun call hcall =>
        hkept.isAbsolute_call (Or.inr htask) hcall
      rw [Session.holds, htask]
      rfl
  | @cancel index state htask =>
      refine kept_afterCancel hm₀ hkept ?_
      rw [Session.holds, htask]
      rfl
  | world hworld =>
      obtain ⟨made, since, hholdings⟩ := hkept.holdings
      exact ⟨hkept.fresh, hworld.scratch hkept.scratch, hkept.captures, made, since,
        hholdings.books.of_sameBooks hworld.books, hholdings.isOpen, hholdings.isHeld,
        hholdings.apart⟩

theorem kept_reaches (hload : LoadsQuietly κ) (hm₀ : ∀ i ∈ m₀.held, i < m₀.disk.files.length)
    (hkept : Kept m₀ session) (hreaches : Session.Reaches coroutine Undisturbed session next) :
    Kept m₀ next := by
  induction hreaches with
  | refl => exact hkept
  | tail _ hstep ih => exact kept_step hload hm₀ ih hstep

theorem clearsCaptures_step (hload : LoadsQuietly κ) (hkept : Kept m₀ session)
    (hstep : Session.Step coroutine Undisturbed session next) : ClearsCaptures session next := by
  intro index stage call htask hcall hover
  have hstage : stage ≠ .over := by
    rintro rfl
    cases hcall
  -- the step is the last one of the run: no other task changes its stage
  have hsame : ∀ {i other}, session.tasks i = some other →
      (index ≠ i → next.tasks index = session.tasks index) → index = i ∧ stage = other := by
    intro i other hother hnext
    by_cases hindex : index = i
    · subst hindex
      rw [htask] at hother
      exact ⟨rfl, Option.some.inj hother⟩
    · rw [hnext hindex, htask, Option.some.injEq] at hover
      exact absurd hover hstage
  cases hstep with
  | @begin i state hother =>
      obtain ⟨rfl, rfl⟩ := hsame hother (Session.tasks_afterTurn_of_ne coroutine session)
      have habsolute := hkept.isAbsolute_call (Or.inl hother) hcall
      rw [Session.tasks_afterTurn_self, Option.some.injEq] at hover
      exact isCleared_resume hload hcall habsolute hover
  | @resume i state hother =>
      obtain ⟨rfl, rfl⟩ := hsame hother (Session.tasks_afterTurn_of_ne coroutine session)
      rw [Session.tasks_afterTurn_self, Option.some.injEq] at hover
      cases state with
      | waiting waiting =>
          cases hcall
          exact isCleared_resume hload rfl (hkept.captures hother) hover
      | _ => cases hcall
  | @cancel i state hother =>
      obtain ⟨rfl, rfl⟩ := hsame hother (Session.tasks_afterCancel_of_ne coroutine session)
      cases state with
      | waiting waiting =>
          cases hcall
          exact isCleared_cancel (hkept.captures hother) session.state
      | _ => cases hcall
  | world hworld =>
      rw [htask, Option.some.injEq] at hover
      exact absurd hover hstage

theorem undisturbed_elapse (hkeeps : KeepsIndices κ) (ticks : Nat) (m : Machine κ) :
    Undisturbed m (m.elapse ticks) := by
  refine ⟨Machine.sameBooks_elapse hkeeps ticks m, ?_⟩
  rw [(Machine.onlyDisk_elapse ticks m).environment]
  exact fun hscratch => hscratch

theorem stateAfter_runTogether (tasks : List Task) (limit : Option Int) (m : Machine κ) :
    stateAfter (runTogether tasks limit) m =
      (runPool coroutine clock (tasks.map .fresh) limit m).2 := by
  rw [stateAfter, run_runTogether]

/-- Running tasks together is a session that comes to an end. -/
theorem reaches_runTogether {world : Machine κ → Machine κ → Prop}
    (hworld : ∀ ticks m, world m (m.elapse ticks)) (tasks : List Task) (limit : Option Int)
    (m : Machine κ) :
    ∃ last, Session.Reaches coroutine world (.ofTasks (tasks.map .fresh) m) last ∧
      last.Settled ∧ last.state = stateAfter (runTogether tasks limit) m := by
  rw [stateAfter_runTogether]
  exact @reaches_runPool _ _ _ _ coroutine world clock hworld (tasks.map .fresh) limit m

theorem released_of_settled (hload : LoadsQuietly κ)
    (hm₀ : ∀ i ∈ m₀.held, i < m₀.disk.files.length)
    (hscratch : m₀.environment.HasAbsoluteScratch) {tasks : List Task}
    (hreaches : Session.Reaches coroutine Undisturbed (.ofTasks (tasks.map .fresh) m₀) session)
    (hsettled : session.Settled) : Released m₀ session.state := by
  have hkept := kept_reaches hload hm₀ (kept_ofTasks hscratch tasks) hreaches
  obtain ⟨made, since, hholdings⟩ := hkept.holdings
  refine hholdings.released fun index => ?_
  rw [Session.holds]
  cases htask : session.tasks index with
  | none => rfl
  | some stage =>
      cases stage with
      | idle state => rfl
      | suspended rest => exact absurd htask (hsettled index rest)
      | «over» => rfl

/-! ## Blocking runs -/

omit [Program κ] in
theorem released_of_trade (hm₀ : ∀ i ∈ m₀.held, i < m₀.disk.files.length) {m : Machine κ}
    (htrade : Trade m₀ m none none) : Released m₀ m := by
  have hnothing : Holdings m₀ m₀ [] [] fun _ => none :=
    ⟨.refl m₀, by simp, by simp, by simp⟩
  obtain ⟨made, since, hholdings⟩ :=
    @Holdings.of_trade κ m₀ m₀ m [] [] (fun _ => none) 0 none hnothing hm₀ htrade
  refine hholdings.released fun i => ?_
  rw [Function.update_apply]
  split
  · rfl
  · rfl

/-- A blocking run closes the handle that it has made. -/
theorem closed_runToEnd (hkeeps : KeepsIndices κ) {program : String} {argv : List String}
    {out err : Sink} {m m₁ : Machine κ} {id : Nat}
    (hrun : (startTraced program argv out err).run m = (.ok (some id), m₁))
    (hstarted : Started m m₁ id) :
    ∃ m₂, Started m m₂ id ∧ Closed m₂ (stateAfter (runToEnd program argv out err) m) id := by
  let waitingFor : Act κ WaitResult := do
    if (← get).inTask then warnBlocking program
    guardedWait id .forever
  have hwaited : Respects SameBooks waitingFor := by
    refine respects_bind isFrame_sameBooks (respects_get isFrame_sameBooks) fun now => ?_
    have hwait := sameBooks_guardedWait hkeeps id .forever
    split
    · refine respects_bind isFrame_sameBooks ?_ fun _ => hwait
      exact (respects_printErr _).mono fun _ _ => .of_quiet
    · exact hwait
  have hstarted₂ := hstarted.of_sameBooks_right (hwaited m₁)
  obtain ⟨owned, hopen⟩ := hstarted₂.isOpen
  obtain ⟨m₃, hclose, hclosed⟩ := closed_close hopen
  have hstate : stateAfter (runToEnd program argv out err) m =
      stateAfter (close id) (stateAfter waitingFor m₁) := by
    unfold runToEnd
    rw [stateAfter, run_bind, hrun]
    dsimp only
    rw [run_bind]
    rcases ensuring_cases waitingFor (close id) m₁ with ⟨result, -, hrun⟩ | ⟨failure, hrun⟩
    · rw [hrun]
      rfl
    · rw [hrun]
  rw [hstate, stateAfter_of_run hclose]
  exact ⟨_, hstarted₂, hclosed⟩

theorem trade_runToEnd (hload : LoadsQuietly κ) (hkeeps : KeepsIndices κ) (program : String)
    (argv : List String) (out err : Sink) (m : Machine κ) :
    Trade m (stateAfter (runToEnd program argv out err) m) none none := by
  have htried := tried_startTraced hload program argv out err m
  generalize hrun : (startTraced program argv out err).run m = outcome at htried
  have hstate : ∀ {result : Except Failure (Option Nat)} {m₁ : Machine κ},
      outcome = (result, m₁) → (∀ id, result ≠ .ok (some id)) →
        stateAfter (runToEnd program argv out err) m = m₁ := by
    rintro result m₁ rfl hnone
    unfold runToEnd
    rw [stateAfter, run_bind, hrun]
    rcases result with failure | _ | id
    · rfl
    · rfl
    · exact absurd rfl (hnone id)
  cases htried with
  | failed hspawns hbooks =>
      rw [hstate rfl (by simp)]
      exact .same hbooks
  | refused hspawns hbooks =>
      rw [hstate rfl (by simp)]
      exact .same hbooks
  | started hspawns hstarted =>
      obtain ⟨m₂, hstarted₂, hclosed⟩ := closed_runToEnd hkeeps hrun hstarted
      exact .both hstarted₂ hclosed

/-- A blocking run has nothing to start, or is the run of its call and the removal of its files. -/
theorem runBlocking_cases (hload : LoadsQuietly κ) (hkeeps : KeepsIndices κ) (job : Job)
    (m : Machine κ) :
    (SameBooks m (stateAfter (runBlocking job) m) ∧
        ∀ call, resultOf (prepare job : Act κ (JobResult ⊕ Call)) m ≠ .ok (.inr call)) ∨
      ∃ call m₁ m₂, (prepare job : Act κ (JobResult ⊕ Call)).run m = (.ok (.inr call), m₁) ∧
        Trade m m₂ none none ∧ stateAfter (runBlocking job) m = stateAfter (cleanUp call) m₂ := by
  unfold runBlocking
  rw [stateAfter, run_bind, resultOf]
  rcases hprepare : (prepare job : Act κ (JobResult ⊕ Call)).run m with
    ⟨failure | result | call, m₁⟩
  · have hfiling := (respects_prepare job).of_run hprepare
    have hbooks : SameBooks m m₁ := .of_filing hfiling (congrArg List.length hfiling.disk.files).ge
    exact Or.inl ⟨hbooks, by simp⟩
  · have hfiling := (respects_prepare job).of_run hprepare
    have hbooks : SameBooks m m₁ := .of_filing hfiling (congrArg List.length hfiling.disk.files).ge
    exact Or.inl ⟨hbooks, by simp⟩
  · have hfiling := (respects_prepare job).of_run hprepare
    have hbooks : SameBooks m m₁ := .of_filing hfiling (congrArg List.length hfiling.disk.files).ge
    let running : Act κ JobResult := do
      let code ← runToEnd call.program call.argv call.out call.err
      collect call code
    have hrunning : Trade m₁ (stateAfter running m₁) none none := by
      have htrade := trade_runToEnd hload hkeeps call.program call.argv call.out call.err m₁
      rw [stateAfter] at htrade ⊢
      rw [run_bind]
      rcases hrun : (runToEnd call.program call.argv call.out call.err).run m₁ with
        ⟨failure | code, m₂⟩
      · rw [hrun] at htrade
        exact htrade
      · rw [hrun] at htrade
        exact htrade.of_sameBooks (isFrame_sameBooks.refl _) (.of_quiet (respects_collect _ _ m₂))
    refine Or.inr ⟨call, m₁, stateAfter running m₁, rfl,
      hrunning.of_sameBooks hbooks (isFrame_sameBooks.refl _), ?_⟩
    exact stateAfter_ensuring running (cleanUp call) m₁

theorem released_runBlocking (hload : LoadsQuietly κ) (hkeeps : KeepsIndices κ)
    (hm₀ : ∀ i ∈ m₀.held, i < m₀.disk.files.length) (job : Job) :
    Released m₀ (stateAfter (runBlocking job) m₀) := by
  have htrade : Trade m₀ (stateAfter (runBlocking job) m₀) none none := by
    rcases runBlocking_cases hload hkeeps job m₀ with
      ⟨hbooks, -⟩ | ⟨call, m₁, m₂, -, htrade, hstate⟩
    · exact .same hbooks
    · rw [hstate]
      exact htrade.of_sameBooks (isFrame_sameBooks.refl _) (sameBooks_cleanUp call m₂)
  exact released_of_trade hm₀ htrade

theorem isCleared_runBlocking (hload : LoadsQuietly κ) (hkeeps : KeepsIndices κ)
    (hscratch : m₀.environment.HasAbsoluteScratch) {job : Job} {call : Call}
    (hcall : resultOf (prepare job : Act κ (JobResult ⊕ Call)) m₀ = .ok (.inr call)) :
    call.capture.IsCleared (stateAfter (runBlocking job) m₀).disk := by
  rcases runBlocking_cases hload hkeeps job m₀ with
    ⟨-, hnone⟩ | ⟨other, m₁, m₂, hprepare, -, hstate⟩
  · exact absurd hcall (hnone call)
  · rw [resultOf_of_run hprepare] at hcall
    cases hcall
    rw [hstate]
    exact isCleared_cleanUp (isAbsolute_of_prepare hscratch hprepare) m₂

/-- Whatever programs and tasks do and in whatever order the tasks have their turns, every handle is
closed once, with the files that were opened for it and no others, and what was captured is gone.
A start either makes one handle or holds nothing. -/
theorem handles_and_captures_released (hload : LoadsQuietly κ) (hkeeps : KeepsIndices κ)
    (hm₀ : ∀ i ∈ m₀.held, i < m₀.disk.files.length)
    (hscratch : m₀.environment.HasAbsoluteScratch) :
    (∀ (tasks : List Task) (session : Session (Machine κ) TaskState),
      Session.Reaches coroutine Undisturbed (.ofTasks (tasks.map .fresh) m₀) session →
        (session.Settled → Released m₀ session.state) ∧
          ∀ next, Session.Step coroutine Undisturbed session next → ClearsCaptures session next) ∧
    (∀ (tasks : List Task) (limit : Option Int),
      ∃ last, Session.Reaches coroutine Undisturbed (.ofTasks (tasks.map .fresh) m₀) last ∧
        last.Settled ∧ last.state = stateAfter (runTogether tasks limit) m₀ ∧
          Released m₀ last.state) ∧
    (∀ job, Released m₀ (stateAfter (runBlocking job) m₀) ∧
      ∀ call, resultOf (prepare job : Act κ (JobResult ⊕ Call)) m₀ = .ok (.inr call) →
        call.capture.IsCleared (stateAfter (runBlocking job) m₀).disk) ∧
    (∀ program argv out err, Released m₀ (stateAfter (runToEnd program argv out err) m₀)) ∧
    ∀ program argv out err, Tried m₀ ((start program argv out err).run m₀) := by
  refine ⟨?_, ?_, ?_, ?_, ?_⟩
  · intro tasks session hreaches
    refine ⟨released_of_settled hload hm₀ hscratch hreaches, fun next hstep => ?_⟩
    exact clearsCaptures_step hload
      (kept_reaches hload hm₀ (kept_ofTasks hscratch tasks) hreaches) hstep
  · intro tasks limit
    obtain ⟨last, hreaches, hsettled, hlast⟩ :=
      reaches_runTogether (undisturbed_elapse hkeeps) tasks limit m₀
    exact ⟨last, hreaches, hsettled, hlast,
      released_of_settled hload hm₀ hscratch hreaches hsettled⟩
  · intro job
    exact ⟨released_runBlocking hload hkeeps hm₀ job,
      fun call hcall => isCleared_runBlocking hload hkeeps hscratch hcall⟩
  · intro program argv out err
    exact released_of_trade hm₀ (trade_runToEnd hload hkeeps program argv out err m₀)
  · exact fun program argv out err => tried_start hload program argv out err m₀

/-- A machine with a directory for temporary files and nothing else. -/
def bareMachine : Machine Pause where
  disk := { tree := .dir [("tmp", .dir [] none)] none, cwd := .root }
  environment := []

/-- A run that takes three ticks and whose output is captured. -/
def slowRun : Job := { wanted := .output, target := .program "slow" ["five", "words"] }

theorem handles_and_captures_released_pauses :
    LoadsQuietly Pause ∧ KeepsIndices Pause ∧
      (∀ i ∈ bareMachine.held, i < bareMachine.disk.files.length) ∧
      bareMachine.environment.HasAbsoluteScratch ∧
      Released bareMachine
        (stateAfter (runTogether [.job slowRun, .steps "peer" 2 none, .job slowRun] (some 1))
          bareMachine) ∧
      Released bareMachine (stateAfter (runToEnd "slow" [] .inherit .inherit) bareMachine) ∧
      (stateAfter (runToEnd "slow" [] .inherit .inherit) bareMachine).closings = [0] := by
  have hheld : ∀ i ∈ bareMachine.held, i < bareMachine.disk.files.length := by
    simp [bareMachine]
  have hscratch : bareMachine.environment.HasAbsoluteScratch := by
    intro directory hdirectory
    cases hdirectory
  obtain ⟨-, htogether, -, hblocking, -⟩ :=
    handles_and_captures_released loadsQuietly_pause keepsIndices_pause hheld hscratch
  obtain ⟨last, -, -, hlast, hreleased⟩ :=
    htogether [.job slowRun, .steps "peer" 2 none, .job slowRun] (some 1)
  have hstarts : resultOf (startTraced "slow" [] .inherit .inherit) bareMachine =
      .ok (some 0) := by decide
  have htried := tried_startTraced loadsQuietly_pause "slow" [] .inherit .inherit bareMachine
  rw [run_eq, hstarts] at htried
  refine ⟨loadsQuietly_pause, keepsIndices_pause, hheld, hscratch, hlast ▸ hreleased,
    hblocking "slow" [] .inherit .inherit, ?_⟩
  cases htried with
  | started hspawns hstarted =>
      obtain ⟨m₂, hstarted₂, hclosed⟩ :=
        closed_runToEnd keepsIndices_pause (Prod.ext hstarts rfl) hstarted
      rw [hclosed.closings, hstarted₂.closings]
      rfl

end Act

end BuildRunner
