import BuildRunner.Proofs.Execution.Blocking
import BuildRunner.Proofs.Execution.Turns
import BuildRunner.Proofs.Schedule.Solo

/-!
# Blocking and cooperative runs

A blocking and a cooperative run start their program in the same way, and make the same of its
answer.  Between the two a cooperative run polls the program and lets time pass, until it has ended.
Where it has ended in place, the machine is then as the blocking wait leaves it, but for the clock.
-/

namespace BuildRunner

open BuildRunner.Schedule

variable {κ : Type} [Program κ]

namespace Act

variable {call : Call} {m started ended : Machine κ}

/-! ## Cooperative runs -/

theorem run_beginJob (job : Job) (m : Machine κ) :
    (beginJob job).run m =
      match (prepare job : Act κ (JobResult ⊕ Call)).run m with
      | (.ok (.inl result), prepared) => (.ok (.finished result), prepared)
      | (.ok (.inr call), prepared) => (beginCall call).run prepared
      | (.error failure, prepared) => (.error failure, prepared) := by
  unfold beginJob
  rw [run_bind]
  rcases (prepare job : Act κ (JobResult ⊕ Call)).run m with ⟨failure | (result | call), prepared⟩
  · rfl
  · rfl
  · rfl

theorem run_beginCall_of_failed {failure : Failure}
    (hstart : (starting call).run m = (.error failure, started)) :
    (beginCall call).run m =
      (.error failure, { started with disk := started.disk.without call.capture.paths }) := by
  unfold beginCall onFailure
  rw [run_bind, run_tryCatch, hstart]
  dsimp only
  rw [run_bind, run_cleanUp]
  rfl

theorem run_beginCall_of_unstarted (hstart : (starting call).run m = (.ok none, started)) :
    (beginCall call).run m =
      (Polled.finished <$> ensuring (collect call failureCode) (cleanUp call)).run started := by
  unfold beginCall onFailure
  rw [run_bind, run_tryCatch, hstart, run_map]
  dsimp only
  rw [run_bind]
  rcases (ensuring (collect call failureCode) (cleanUp call) : Act κ JobResult).run started with
    ⟨failure | result, m'⟩
  · rfl
  · rfl

theorem run_beginCall_of_started {id : Nat} {saved : String}
    (hstart : (starting call).run m = (.ok (some id), started))
    (hhere : started.disk.currentPath = .ok saved) :
    (beginCall call).run m = (poll { call, handle := id, saved }).run started := by
  unfold beginCall onFailure
  rw [run_bind, run_tryCatch, hstart]
  dsimp only
  rw [run_bind, run_tryCatch, run_currentPath, hhere]

/-- A turn that finishes the run is the last one of its task. -/
theorem solo_of_finished {state : TaskState} {action : Act κ Polled}
    (hturn : turn state = Polled.progress <$> action) {m last : Machine κ}
    {outcome : Except Failure JobResult}
    (hrun : action.run { m with inTask := true } = (outcome.map .finished, last)) :
    coroutine.Solo clock state m (outcome.map .run) { last with inTask := m.inTask } := by
  have hresume : coroutine.resume state m =
      ((outcome.map Polled.finished).map Polled.progress, { last with inTask := m.inTask }) := by
    rw [resume_eq, resultOf, stateAfter, hturn, run_map_progress, hrun]
    rfl
  cases outcome with
  | error failure => exact .failed hresume
  | ok result => exact .ended hresume

/-- However long it takes, a waiting run comes to what is made of the answer of its program. -/
theorem solo_waiting {waiting : Waiting} {index delay : Nat} {handle : Handle} {settings : Settings}
    {final : Machine κ} {outcome : Except Failure JobResult}
    (hsettings : Settings.read started.environment = .ok settings)
    (hdelay : settings.pollDelay = some delay) (houtside : started.inTask = false)
    (hhere : started.disk.currentPath = .ok waiting.saved)
    (hwatches : started.Watches waiting.handle index handle)
    (hends : started.EndsInPlace index ended)
    (hconclude : (conclude waiting.call waiting.handle handle (ended.answerOf index)).run ended =
      (outcome, final)) (ticks : Nat) :
    ∃ time, coroutine.Solo clock (.waiting waiting) (started.elapse ticks) (outcome.map .run)
      (final.shifted time false) := by
  obtain ⟨last, hbefore, hafter⟩ := hends.exists_last
  obtain ⟨_, -, hdone, -⟩ := Machine.exists_elapse_of_awaitEnd hends.ends
  induction hleft : last - ticks using Nat.strong_induction_on generalizing ticks with
  | _ left ih =>
      have hstill : (started.elapse ticks).Watches waiting.handle index handle :=
        hwatches.of_handles (started.handles_elapse ticks)
      by_cases hrunning : (started.elapse ticks).answerOf index = .running
      · -- the poll changes nothing, and the next one comes later
        have hless : ticks < last := by
          by_contra hle
          rw [hafter ticks (Nat.le_of_not_lt hle)] at hrunning
          exact hdone hrunning
        have hresume := resume_waiting_of_running
          ((started.environment_elapse ticks).symm ▸ hsettings) hstill hrunning
        rw [hdelay] at hresume
        obtain ⟨time, hsolo⟩ := ih (last - (ticks + max 1 delay)) (by omega) (ticks + max 1 delay) rfl
        rw [Machine.elapse_add] at hsolo
        exact ⟨time, .paused hresume hsolo⟩
      · have hle : last ≤ ticks := by
          by_contra hless
          exact hrunning (hbefore ticks (Nat.lt_of_not_le hless))
        have hlast : ({ started.elapse ticks with inTask := true } : Machine κ) =
            ended.shifted (started.clock + ticks) true := by
          rw [hafter ticks hle]
          rfl
        have hthere : ended.disk.currentPath = .ok waiting.saved := hends.here.trans hhere
        have hinside : (ended.shifted (started.clock + ticks) true).Watches waiting.handle index
            handle := hlast ▸ hstill.of_handles rfl
        have hpoll : (poll waiting).run { started.elapse ticks with inTask := true } =
            (outcome.map .finished, final.shifted (started.clock + ticks) true) := by
          rw [hlast]
          rw [run_poll_of_ended hinside hdone hthere, run_map]
          have hsame := (timeless_conclude _ _ _ _).run hconclude (started.clock + ticks) true
          have hanswer : (ended.shifted (started.clock + ticks) true).answerOf index =
              ended.answerOf index := rfl
          rw [hanswer, hsame]
          cases outcome with
          | _ => rfl
        have hsolo := @solo_of_finished κ _ (.waiting waiting) (poll waiting) rfl _ _ _ hpoll
        rw [started.inTask_elapse, houtside] at hsolo
        exact ⟨started.clock + ticks, hsolo⟩

/-! ## Jobs -/

/-- A run that ends with its first turn does what a blocking run does. -/
theorem solo_of_timeless {job : Job} {m m' : Machine κ} {action : Act κ JobResult}
    (haction : Timeless action) (hsame : m'.inTask = m.inTask)
    (hblocking : (runBlocking job).run m = action.run m')
    (hbegin : (beginJob job).run (m.shifted m.clock true) =
      (Polled.finished <$> action).run (m'.shifted m.clock true)) :
    ∃ time, coroutine.Solo clock (.fresh (.job job)) m ((resultOf (runBlocking job) m).map .run)
      { stateAfter (runBlocking job) m with clock := time } := by
  obtain ⟨outcome, final, hrun⟩ : ∃ outcome final, action.run m' = (outcome, final) := ⟨_, _, rfl⟩
  have hfinished : (beginJob job).run { m with inTask := true } =
      (outcome.map .finished, final.shifted m.clock true) := by
    have hshifted := haction.run hrun m.clock true
    refine hbegin.trans ?_
    rw [run_map, hshifted]
    cases outcome with
    | _ => rfl
  have hsolo := @solo_of_finished κ _ (.fresh (.job job)) (beginJob job) rfl _ _ _ hfinished
  rw [← hsame, ← (haction.same hrun).2] at hsolo
  rw [hrun] at hblocking
  rw [resultOf_of_run hblocking, stateAfter_of_run hblocking]
  exact ⟨m.clock, hsolo⟩

/-- The turn that starts the program of a job is the first poll of its run. -/
theorem resume_job_of_started {job : Job} {id : Nat} {path : String} {prepared : Machine κ}
    (hprepare : (prepare job).run m = (.ok (.inr call), prepared))
    (hstart : (starting call).run prepared = (.ok (some id), started))
    (hhere : started.disk.currentPath = .ok path) :
    coroutine.resume (.fresh (.job job)) m =
      coroutine.resume (.waiting { call, handle := id, saved := path }) started := by
  obtain ⟨htime, hprepared⟩ := (timeless_prepare job).same hprepare
  obtain ⟨htime', hstarted⟩ := (timeless_startTraced _ _ _ _).same hstart
  have hbegin := run_beginJob job (m.shifted m.clock true)
  rw [(timeless_prepare job).run hprepare] at hbegin
  have hcall := run_beginCall_of_started ((timeless_startTraced _ _ _ _).run hstart m.clock true) hhere
  have hshifted : ({ started with inTask := true } : Machine κ) = started.shifted m.clock true := by
    rw [← htime, ← htime']
    rfl
  have hturn : (turn (.fresh (.job job)) : Act κ (Progress TaskState TaskResult)).run
      { m with inTask := true } =
        (turn (.waiting { call, handle := id, saved := path })).run
          { started with inTask := true } := by
    unfold turn
    rw [run_map_progress, run_map_progress, hshifted]
    exact congrArg Polled.turned (hbegin.trans hcall)
  rw [resume_eq, resume_eq, resultOf, resultOf, stateAfter, stateAfter, hturn, hstarted, hprepared]

/-- A job whose program is started waits for it as a blocking run does. -/
theorem solo_of_started (hload : LoadsQuietly κ) {job : Job} {settings : Settings} {delay id : Nat}
    {path : String} {prepared : Machine κ} (hsettings : Settings.read m.environment = .ok settings)
    (hdelay : settings.pollDelay = some delay) (houtside : m.inTask = false)
    (hhere : m.disk.currentPath = .ok path)
    (hprepare : (prepare job).run m = (.ok (.inr call), prepared))
    (hstart : (starting call).run prepared = (.ok (some id), started))
    (hended : started.EndsInPlace m.programs.length ended) :
    ∃ time, coroutine.Solo clock (.fresh (.job job)) m ((resultOf (runBlocking job) m).map .run)
      { stateAfter (runBlocking job) m with clock := time } := by
  obtain ⟨hthere, hread, handle, hwatches, -⟩ := watches_of_started hload hprepare hstart
  rw [hhere] at hthere
  rw [hsettings] at hread
  have hstarted : started.inTask = false := by
    rw [((timeless_startTraced _ _ _ _).same hstart).2, ((timeless_prepare job).same hprepare).2,
      houtside]
  obtain ⟨outcome, final, hconclude⟩ : ∃ outcome final,
      (conclude call id handle (ended.answerOf m.programs.length)).run ended = (outcome, final) :=
    ⟨_, _, rfl⟩
  have hblocking : (runBlocking job).run m = (outcome, final) := by
    rw [run_runBlocking job m, hprepare]
    exact (run_block_of_started hstart hwatches hstarted hended.ends).trans hconclude
  obtain ⟨time, hsolo⟩ := @solo_waiting κ _ started ended { call, handle := id, saved := path } _ _ _
    _ _ _ hread hdelay hstarted hthere hwatches hended hconclude 0
  have hfinal : final.inTask = false := by
    obtain ⟨last, rfl, -⟩ := Machine.exists_elapse_of_awaitEnd hended.ends
    rw [((timeless_conclude _ _ _ _).same hconclude).2, Machine.inTask_elapse, hstarted]
  have hshape : final.shifted time false = { final with clock := time } := by
    rw [← hfinal]
    rfl
  rw [hshape] at hsolo
  rw [resultOf_of_run hblocking, stateAfter_of_run hblocking]
  exact ⟨time, hsolo.of_resume_eq (resume_job_of_started hprepare hstart hthere)⟩

theorem solo_job (hload : LoadsQuietly κ) {job : Job} {m : Machine κ} {settings : Settings}
    {delay : Nat} {path : String} (hsettings : Settings.read m.environment = .ok settings)
    (hdelay : settings.pollDelay = some delay) (houtside : m.inTask = false)
    (hhere : m.disk.currentPath = .ok path) (hends : job.EndsInPlace m) :
    ∃ time, coroutine.Solo clock (.fresh (.job job)) m ((resultOf (runBlocking job) m).map .run)
      { stateAfter (runBlocking job) m with clock := time } := by
  have hblocking := run_runBlocking job m
  have hbegin := run_beginJob job (m.shifted m.clock true)
  rcases hprepare : (prepare job : Act κ (JobResult ⊕ Call)).run m with
    ⟨failure | (result | call), prepared⟩
  all_goals
    have hprepared := ((timeless_prepare job).same hprepare).2
    rw [hprepare] at hblocking
    rw [(timeless_prepare job).run hprepare] at hbegin
    dsimp only at hblocking hbegin
  · exact solo_of_timeless (timeless_throw failure) hprepared hblocking hbegin
  · exact solo_of_timeless (timeless_pure result) hprepared hblocking hbegin
  · rcases hstart : (starting call : Act κ (Option Nat)).run prepared with
      ⟨failure | (_ | id), started⟩
    all_goals
      have hstarted := ((timeless_startTraced _ _ _ _).same hstart).2.trans hprepared
      have hstart' := (timeless_startTraced _ _ _ _).run hstart m.clock true
    · rw [run_block_of_failed hstart] at hblocking
      rw [run_beginCall_of_failed hstart'] at hbegin
      exact @solo_of_timeless κ _ job m
        { started with disk := started.disk.without call.capture.paths } _ (timeless_throw failure)
        hstarted hblocking hbegin
    · rw [run_block_of_unstarted hstart] at hblocking
      rw [run_beginCall_of_unstarted hstart'] at hbegin
      exact solo_of_timeless (timeless_ensuring (timeless_collect _ _) (timeless_cleanUp _)) hstarted
        hblocking hbegin
    · obtain ⟨ended, hended⟩ := hends hprepare hstart
      exact solo_of_started hload hsettings hdelay houtside hhere hprepare hstart hended

/-- A cooperative run is that of its only task. -/
theorem run_runCooperative {job : Job} {m last : Machine κ} {outcome : Except Failure JobResult}
    (hsolo : coroutine.Solo clock (.fresh (.job job)) m (outcome.map .run) last) :
    (runCooperative job).run m = (outcome, last) := by
  have hpool := runPool_singleton (fun _ => rfl) (fun ticks m => Machine.clock_elapse ticks m) hsolo
  have htogether : (runTogether [.job job] none).run m =
      ((outcome.map fun result => [TaskResult.run result]), last) := by
    rw [run_runTogether]
    simp only [List.map_cons, List.map_nil]
    rw [hpool]
    cases outcome with
    | _ => rfl
  unfold runCooperative
  rw [run_bind, htogether]
  cases outcome with
  | _ => rfl

end Act

/-- A job comes to the same, and leaves the machine in the same state but for the clock, whether it is
run to its end at once or as the only task. -/
def Job.RunsAlike (job : Job) (m : Machine κ) : Prop :=
  ∃ time, (Act.runCooperative job).run m = (resultOf (Act.runBlocking job) m,
    { stateAfter (Act.runBlocking job) m with clock := time })

namespace Act

/-- A job runs alike if its program ends in place and is polled at finite intervals.  The exit code
that its result tells is that of the program, if it has ended with one that is not negative, and else
that of a failure. -/
theorem blocking_and_cooperative_agree (hload : LoadsQuietly κ) {job : Job} {m : Machine κ}
    {settings : Settings} {delay : Nat} {path : String}
    (hsettings : Settings.read m.environment = .ok settings)
    (hdelay : settings.pollDelay = some delay) (houtside : m.inTask = false)
    (hhere : m.disk.currentPath = .ok path) (hends : job.EndsInPlace m) :
    job.RunsAlike m ∧
    (∀ result, resultOf (runBlocking job) m = .ok result →
      ∃ code, job.Exits m code ∧ job.wanted.Tells code result) ∧
    (job.wanted = .status → ∀ failure, resultOf (runBlocking job) m = .error failure →
      job.Fails m failure) := by
  refine ⟨?_, ?_, ?_⟩
  · obtain ⟨time, hsolo⟩ := solo_job hload hsettings hdelay houtside hhere hends
    exact ⟨time, run_runCooperative hsolo⟩
  · exact fun result hresult => exists_exits_of_runBlocking hload houtside hends hresult
  · exact fun hwanted failure hresult => fails_of_runBlocking hload hwanted houtside hends hresult

end Act

/-- What a program of a workshop is about.  One that leaves removes the directory that it works in
with its last turn, and one that lingers makes a file when it has ended. -/
inductive Errand
  | waiting
  | leaving
  | lingering
  | late
  | over
deriving DecidableEq

def Errand.turn (d : Disk) : Errand → Disk × Errand
  | .waiting => (d, .over)
  | .leaving => (stateAfter (DiskM.rm "/work" true) d, .over)
  | .lingering => (d, .late)
  | .late => ((d.openFile false "/late").toOption.elim d Prod.fst, .over)
  | .over => (d, .over)

def Errand.named (name : String) : Errand :=
  if name = "leave" then .leaving else if name = "linger" then .lingering else .waiting

instance : Program Errand where
  load d _ arguments _ _ := .ok (d, .named (arguments.headD ""))
  advance _ d errand := errand.turn d
  answer
    | .late | .over => .exited 0
    | _ => .running

theorem loadsQuietly_errand : LoadsQuietly Errand where
  quiet hload := by
    cases hload
    exact ⟨rfl, rfl, Nat.le_refl _⟩

def workshop (environment : Environment) : Machine Errand where
  disk := { tree := .dir [("work", .dir [] none)] none, cwd := ⟨["work"], []⟩ }
  environment

def errand (name : String) : Job := { wanted := .status, target := .program name [] }

def errandCall (name : String) : Call where
  wanted := .status
  program := name
  argv := []
  capture := .nowhere
  out := .inherit
  err := .inherit

/-- The workshop when the program of a name has been started. -/
def atWork (environment : Environment) (name : String) : Machine Errand :=
  { workshop environment with
    programs := [.named name]
    handles := [{ program := name, source := .program 0, owned := [] }] }

namespace Act

theorem prepare_errand (name : String) (m : Machine Errand) :
    (prepare (errand name)).run m = (.ok (.inr (errandCall name)), m) := rfl

theorem watches_atWork (environment : Environment) (name : String) :
    (atWork environment name).Watches 0 0
      { program := name, source := .program 0, owned := [] } := ⟨rfl, rfl, rfl⟩

theorem currentPath_workshop (environment : Environment) :
    (workshop environment).disk.currentPath = .ok "/work" := by
  show Disk.currentPath (workshop []).disk = _
  decide

theorem starting_wait :
    (starting (errandCall "wait")).run (workshop []) = (.ok (some 0), atWork [] "wait") := rfl

theorem awaitEnd_wait :
    (atWork [] "wait").awaitEnd 0 = some (atWork [] "wait").tick :=
  Machine.awaitEnd_of_tick rfl (by decide)

theorem endsInPlace_wait : (errand "wait").EndsInPlace (workshop []) := by
  intro call id prepared started hprepare hstart
  rw [prepare_errand] at hprepare
  cases hprepare
  rw [starting_wait] at hstart
  cases hstart
  refine ⟨(atWork [] "wait").tick, awaitEnd_wait, ?_, rfl⟩
  refine Machine.elapse_of_still fun program hprogram time => ?_
  rw [List.mem_singleton.mp hprogram]
  rfl

/-- A program that only waits for a while ends with the exit code zero. -/
theorem blocking_and_cooperative_agree_wait :
    LoadsQuietly Errand ∧ (errand "wait").EndsInPlace (workshop []) ∧
      (errand "wait").RunsAlike (workshop []) ∧
        resultOf (runBlocking (errand "wait")) (workshop []) = .ok (.status 0) := by
  obtain ⟨settings, hsettings, hdelay⟩ : ∃ settings, Settings.read [] = .ok settings ∧
      settings.pollDelay = some 11 := ⟨_, rfl, by decide⟩
  obtain ⟨halike, hreturns, hfails⟩ := @blocking_and_cooperative_agree Errand _ loadsQuietly_errand
    (errand "wait") (workshop []) settings 11 "/work" hsettings hdelay rfl (currentPath_workshop [])
    endsInPlace_wait
  refine ⟨loadsQuietly_errand, endsInPlace_wait, halike, ?_⟩
  cases hresult : resultOf (runBlocking (errand "wait")) (workshop []) with
  | error failure =>
      cases hfails rfl failure hresult with
      | start hprepare hstart =>
          rw [prepare_errand] at hprepare
          cases hprepare
          rw [starting_wait] at hstart
          cases hstart
      | remark hprepare hstart hend hanswer =>
          rw [prepare_errand] at hprepare
          cases hprepare
          rw [starting_wait] at hstart
          cases hstart
          cases awaitEnd_wait.symm.trans hend
          rcases hanswer with hanswer | hanswer
          · cases hanswer
          · cases hanswer
  | ok result =>
      obtain ⟨code, hexits, htells⟩ := hreturns result hresult
      have hcode : code = 0 := by
        cases hexits with
        | invalid hwords => cases hwords
        | unstarted hprepare hstart =>
            rw [prepare_errand] at hprepare
            cases hprepare
            rw [starting_wait] at hstart
            cases hstart
        | ended hprepare hstart hend =>
            rw [prepare_errand] at hprepare
            cases hprepare
            rw [starting_wait] at hstart
            cases hstart
            cases awaitEnd_wait.symm.trans hend
            rfl
      subst hcode
      cases result with
      | status shown => rw [show shown = 0 from htells]
      | _ => cases htells

/-! ### Runs that are not alike -/

def errandWaiting (name : String) : Waiting where
  call := errandCall name
  handle := 0
  saved := "/work"

/-- The program has been started, and is running at the first poll. -/
structure Begins (environment : Environment) (name : String) : Prop where
  start : (starting (errandCall name)).run (workshop environment) =
    (.ok (some 0), atWork environment name)
  running : (atWork environment name).answerOf 0 = .running

variable {environment : Environment} {name : String}

theorem resume_errand (hbegins : Begins environment name) {settings : Settings}
    (hsettings : Settings.read environment = .ok settings) :
    coroutine.resume (.fresh (.job (errand name))) (workshop environment) =
      (.ok (.paused settings.pollDelay (.waiting (errandWaiting name))), atWork environment name) :=
  (resume_job_of_started (prepare_errand name _) hbegins.start
    (currentPath_workshop environment)).trans
      (resume_waiting_of_running hsettings (watches_atWork environment name) hbegins.running)

/-- The program ends with its first turn. -/
theorem run_runBlocking_errand (hbegins : Begins environment name)
    (hended : (atWork environment name).tick.answerOf 0 ≠ .running) :
    (runBlocking (errand name)).run (workshop environment) =
      (conclude (errandCall name) 0 { program := name, source := .program 0, owned := [] }
        ((atWork environment name).tick.answerOf 0)).run (atWork environment name).tick := by
  rw [run_runBlocking, prepare_errand]
  exact run_block_of_started hbegins.start (watches_atWork environment name) rfl
    (Machine.awaitEnd_of_tick hbegins.running hended)

/-- The program has ended at the second poll. -/
theorem stateAfter_runCooperative_errand (hbegins : Begins environment name) {settings : Settings}
    {delay : Nat} (hsettings : Settings.read environment = .ok settings)
    (hdelay : settings.pollDelay = some delay)
    (hended : ((atWork environment name).elapse (max 1 delay)).answerOf 0 ≠ .running) :
    stateAfter (runCooperative (errand name)) (workshop environment) =
      (coroutine.resume (.waiting (errandWaiting name))
        ((atWork environment name).elapse (max 1 delay))).2 := by
  have hwatches := (watches_atWork environment name).of_handles
    (Machine.handles_elapse (max 1 delay) _)
  obtain ⟨outcome, houtcome⟩ := @resume_waiting_of_ended Errand _ (errandWaiting name) _ _ _
    hwatches hended
  have hfirst := resume_errand hbegins hsettings
  rw [hdelay] at hfirst
  have hlast : coroutine.Solo clock (.waiting (errandWaiting name))
      ((atWork environment name).elapse (max 1 delay)) (outcome.map TaskResult.run)
      (coroutine.resume (.waiting (errandWaiting name))
        ((atWork environment name).elapse (max 1 delay))).2 := by
    cases outcome with
    | error failure => exact .failed (Prod.ext houtcome rfl)
    | ok result => exact .ended (Prod.ext houtcome rfl)
  exact stateAfter_of_run (run_runCooperative (.paused hfirst hlast))

/-- What is seen of the machine in the end, apart from the clock, is the same if the runs are alike. -/
theorem eq_of_runsAlike {α : Type} (view : Machine κ → α)
    (hview : ∀ time m, view { m with clock := time } = view m) {job : Job} {m : Machine κ}
    (halike : job.RunsAlike m) :
    view (stateAfter (runCooperative job) m) = view (stateAfter (runBlocking job) m) := by
  obtain ⟨time, hrun⟩ := halike
  rw [stateAfter_of_run hrun, hview]

/-- The only job cannot be resumed if it is to be polled after an infinite time. -/
theorem run_runCooperative_stalled {job : Job} {rest : TaskState} {m m' : Machine κ}
    (hresume : coroutine.resume (.fresh (.job job)) m = (.ok (.paused none rest), m')) :
    resultOf (runCooperative job) m = .error .stalled := by
  have hpool := @runPool_singleton_stalled _ _ _ _ coroutine clock (fun _ => rfl) _ _ _ _ hresume
  have htogether : (runTogether [.job job] none).run m =
      (.error .stalled, coroutine.cancel rest m') := by
    rw [run_runTogether]
    simp only [List.map_cons, List.map_nil]
    rw [hpool]
    rfl
  unfold runCooperative
  rw [resultOf, run_bind, htogether]

def patience : Environment := [(intervalVariable, "inf")]

/-- A job does not run alike if its program removes the directory that it works in, if it leaves
something behind that makes a file, or if it is to be polled after an infinite time. -/
theorem not_runsAlike :
    LoadsQuietly Errand ∧ (workshop []).disk.currentPath = .ok "/work" ∧
      (∃ settings, Settings.read [] = .ok settings) ∧
      ¬ (errand "leave").RunsAlike (workshop []) ∧ ¬ (errand "linger").RunsAlike (workshop []) ∧
      (∃ settings, Settings.read patience = .ok settings) ∧
      ¬ (errand "wait").RunsAlike (workshop patience) := by
  obtain ⟨settings, hsettings, hdelay⟩ : ∃ settings, Settings.read [] = .ok settings ∧
      settings.pollDelay = some 11 := ⟨_, rfl, by decide⟩
  obtain ⟨patient, hpatient, hnever⟩ : ∃ settings, Settings.read patience = .ok settings ∧
      settings.pollDelay = none := ⟨_, rfl, by decide⟩
  refine ⟨loadsQuietly_errand, currentPath_workshop [], ⟨settings, hsettings⟩, fun halike => ?_,
    fun halike => ?_, ⟨patient, hpatient⟩, fun halike => ?_⟩
  · have hbegins : Begins [] "leave" := ⟨rfl, rfl⟩
    have herr := eq_of_runsAlike Machine.err (fun _ _ => rfl) halike
    rw [stateAfter_runCooperative_errand hbegins hsettings hdelay (by decide),
      stateAfter_of_run (run_runBlocking_errand hbegins (by decide))] at herr
    exact absurd herr (by decide +kernel)
  · have hbegins : Begins [] "linger" := ⟨rfl, rfl⟩
    have htree := eq_of_runsAlike (fun m => m.disk.tree.kindAt ["late"]) (fun _ _ => rfl) halike
    rw [stateAfter_runCooperative_errand hbegins hsettings hdelay (by decide),
      stateAfter_of_run (run_runBlocking_errand hbegins (by decide))] at htree
    exact absurd htree (by decide)
  · have hbegins : Begins patience "wait" := ⟨rfl, rfl⟩
    obtain ⟨time, hrun⟩ := halike
    have hfirst := resume_errand hbegins hpatient
    rw [hnever] at hfirst
    have hresult := run_runCooperative_stalled hfirst
    rw [resultOf_of_run hrun, resultOf_of_run (run_runBlocking_errand hbegins (by decide))]
      at hresult
    exact absurd hresult (by decide)

end Act

end BuildRunner
