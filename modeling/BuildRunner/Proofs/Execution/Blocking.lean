import BuildRunner.Execution.Blocking
import BuildRunner.Proofs.Execution.Polling

/-!
# Blocking runs

A blocking run starts its program, waits for it, and concludes with its answer.  Its exit code is
the one that the program has ended with, if that is not negative, and else that of a failure.
-/

namespace BuildRunner

variable {κ : Type} [Program κ]

/-- A program has been started behind those of a machine, and there is an open handle for it. -/
structure Machine.HasStarted (m m' : Machine κ) (id : Nat) (program : String) : Prop where
  programs : m.programs.length < m'.programs.length
  watches : ∃ handle, m'.Watches id m.programs.length handle ∧ handle.program = program

omit [Program κ] in
theorem Machine.HasStarted.of_programs {m m₁ m' : Machine κ} {id : Nat} {program : String}
    (hstarted : m₁.HasStarted m' id program) (hsame : m₁.programs = m.programs) :
    m.HasStarted m' id program := by
  obtain ⟨hprograms, hwatches⟩ := hstarted
  rw [hsame] at hprograms hwatches
  exact ⟨hprograms, hwatches⟩

namespace Act

/-! ## The handle of a start -/

theorem hasStarted_launch {program : String} {argv : List String} {out err : Option Nat}
    {owned : List Nat} {m m' : Machine κ} {id : Nat}
    (hrun : (launch program argv out err owned : Act κ Nat).run m = (.ok id, m')) :
    m.HasStarted m' id program := by
  unfold launch at hrun
  split at hrun
  · cases hrun
  · rw [run_bind, run_get] at hrun
    dsimp only at hrun
    cases hloaded : (Program.load m.disk m.environment (program :: argv) out err :
        Except Errno (Disk × κ)) with
    | error code =>
        rw [hloaded] at hrun
        cases hrun
    | ok loaded =>
        rw [hloaded] at hrun
        cases hrun
        exact ⟨by simp, _, ⟨List.getElem?_concat_length, rfl, rfl⟩, rfl⟩

omit [Program κ] in
theorem programs_openOutput {sink : Sink} {m m' : Machine κ} {file : Option Nat}
    (hrun : (openOutput sink : Act κ (Option Nat)).run m = (.ok file, m')) :
    m'.programs = m.programs := by
  cases sink with
  | inherit =>
      cases hrun
      rfl
  | file index =>
      cases hrun
      rfl
  | path path =>
      rcases openOutput_path path m with ⟨failure, -, hfailed⟩ | ⟨disk, -, hopened⟩
      · rw [hfailed] at hrun
        cases hrun
      · rw [hopened] at hrun
        cases hrun
        rfl

theorem hasStarted_openAndLaunch {program : String} {argv : List String} {out err : Sink}
    {m m' : Machine κ} {id : Nat}
    (hrun : (openAndLaunch program argv out err : Act κ Nat).run m = (.ok id, m')) :
    m.HasStarted m' id program := by
  obtain ⟨_, _, hget, hrun⟩ := run_bind_eq_ok hrun
  cases hget
  obtain ⟨outFile, m₁, hout, hrun⟩ := run_bind_eq_ok hrun
  have hfirst := programs_openOutput hout
  have hrest : ∀ {action : Act κ (Option Nat)}, (do
      let errFile ← action
      launch program argv outFile errFile ((← get).held.drop m.held.length)).run m₁ =
        (.ok id, m') →
      (∀ {file m₂}, action.run m₁ = (.ok file, m₂) → m₂.programs = m₁.programs) →
      m.HasStarted m' id program := by
    intro action hrun hkept
    obtain ⟨errFile, m₂, herr, hrun⟩ := run_bind_eq_ok hrun
    obtain ⟨_, _, hget, hrun⟩ := run_bind_eq_ok hrun
    cases hget
    exact (hasStarted_launch hrun).of_programs ((hkept herr).trans hfirst)
  have hopened : (do
      let errFile ← openOutput err
      launch program argv outFile errFile ((← get).held.drop m.held.length)).run m₁ =
        (.ok id, m') → m.HasStarted m' id program :=
    fun hrun => hrest hrun programs_openOutput
  -- a path may be that of the first output, whose file is then shared
  cases err with
  | inherit => exact hopened hrun
  | file index => exact hopened hrun
  | path path =>
      dsimp only at hrun
      split at hrun
      · refine @hrest (pure outFile) hrun fun hshared => ?_
        cases hshared
        rfl
      · exact hopened hrun

/-- A start that makes a handle has come to no failure. -/
theorem run_openAndLaunch_of_start {program : String} {argv : List String} {out err : Sink}
    {m m' : Machine κ} {id : Nat}
    (hrun : (start program argv out err : Act κ (Option Nat)).run m = (.ok (some id), m')) :
    (openAndLaunch program argv out err : Act κ Nat).run m = (.ok id, m') := by
  unfold start at hrun
  rw [run_bind, run_get] at hrun
  dsimp only at hrun
  rw [run_tryCatch, run_map] at hrun
  rcases hopen : (openAndLaunch program argv out err : Act κ Nat).run m with ⟨failure | found, m₁⟩
  · rw [hopen] at hrun
    dsimp only at hrun
    split at hrun
    · obtain ⟨_, _, -, hrun⟩ := run_bind_eq_ok hrun
      obtain ⟨_, _, -, hrun⟩ := run_bind_eq_ok hrun
      cases hrun
    · cases hrun
  · rw [hopen] at hrun
    cases hrun
    rfl

/-- A program that is started is the last one of the machine, and its handle is open. -/
theorem hasStarted_startTraced {program : String} {argv : List String} {out err : Sink}
    {m m' : Machine κ} {id : Nat}
    (hrun : (startTraced program argv out err : Act κ (Option Nat)).run m = (.ok (some id), m')) :
    m.HasStarted m' id program := by
  obtain ⟨arguments, m₁, hexpand, hrun⟩ := run_bind_eq_ok hrun
  obtain ⟨verbose, m₂, hverbose, hrun⟩ := run_bind_eq_ok hrun
  have hfirst := ((respects_expandArguments argv).of_run hexpand).programs
  have hsecond := (respects_verbose.of_run hverbose).programs.trans hfirst
  split at hrun
  · obtain ⟨_, m₃, htold, hrun⟩ := run_bind_eq_ok hrun
    have hthird := ((respects_remark _).of_run htold).programs.trans hsecond
    exact (hasStarted_openAndLaunch (run_openAndLaunch_of_start hrun)).of_programs hthird
  · exact (hasStarted_openAndLaunch (run_openAndLaunch_of_start hrun)).of_programs hsecond

/-! ## Blocking runs -/

/-- The start of the program of a call. -/
abbrev starting (call : Call) : Act κ (Option Nat) :=
  startTraced call.program call.argv call.out call.err

/-- The part of a blocking run that is behind its preparation. -/
def block (call : Call) : Act κ JobResult :=
  ensuring
    (do
      let code ← runToEnd call.program call.argv call.out call.err
      collect call code)
    (cleanUp call)

variable {call : Call} {m started ended : Machine κ}

theorem run_runBlocking (job : Job) (m : Machine κ) :
    (runBlocking job).run m =
      match (prepare job : Act κ (JobResult ⊕ Call)).run m with
      | (.ok (.inl result), prepared) => (.ok result, prepared)
      | (.ok (.inr call), prepared) => (block call).run prepared
      | (.error failure, prepared) => (.error failure, prepared) := by
  unfold runBlocking
  rw [run_bind]
  rcases (prepare job : Act κ (JobResult ⊕ Call)).run m with ⟨failure | (result | call), prepared⟩
  · rfl
  · rfl
  · rfl

theorem run_block_of_failed {failure : Failure}
    (hstart : (starting call).run m = (.error failure, started)) :
    (block call).run m =
      (.error failure, { started with disk := started.disk.without call.capture.paths }) := by
  unfold block runToEnd
  rw [run_ensuring, resultOf, stateAfter, run_bind, run_bind, hstart]
  dsimp only
  rw [run_cleanUp]

theorem run_block_of_unstarted (hstart : (starting call).run m = (.ok none, started)) :
    (block call).run m = (ensuring (collect call failureCode) (cleanUp call)).run started := by
  have hcollect : (do
      let code ← runToEnd call.program call.argv call.out call.err
      collect call code : Act κ JobResult).run m = (collect call failureCode).run started := by
    unfold runToEnd
    rw [run_bind, run_bind, hstart]
    rfl
  unfold block
  rw [run_ensuring, run_ensuring, resultOf, stateAfter, hcollect]
  rfl

/-- A blocking run that has started its program waits for it, within a task after a warning. -/
theorem run_block_of_warned {warned : Machine κ} {id index : Nat} {handle : Handle}
    (hstart : (starting call).run m = (.ok (some id), started))
    (hwarn : if started.inTask then (warnBlocking call.program).run started = (.ok (), warned)
      else warned = started)
    (hwatches : warned.Watches id index handle) (hend : warned.awaitEnd index = some ended) :
    (block call).run m = (conclude call id handle (ended.answerOf index)).run ended := by
  have hwait : (do
      if (← get).inTask then warnBlocking call.program
      guardedWait id .forever : Act κ WaitResult).run started =
        (settle id handle (ended.answerOf index)).run ended := by
    rw [run_bind, run_get]
    dsimp only
    cases hinside : started.inTask with
    | true =>
        rw [hinside, if_pos rfl] at hwarn
        rw [if_pos rfl, run_bind, hwarn]
        exact run_guardedWait_forever hwatches hend
    | false =>
        rw [hinside, if_neg (by decide)] at hwarn
        rw [if_neg (by decide), ← hwarn]
        exact run_guardedWait_forever hwatches hend
  have hclosed : (ensuring
      (do
        if (← get).inTask then warnBlocking call.program
        guardedWait id .forever)
      (close id) : Act κ WaitResult).run started =
        (ensuring (settle id handle (ended.answerOf index)) (close id)).run ended := by
    rw [run_ensuring, run_ensuring, resultOf, stateAfter, hwait]
    rfl
  have hcollect : (do
      let code ← runToEnd call.program call.argv call.out call.err
      collect call code : Act κ JobResult).run m =
        (do
          let result ← ensuring (settle id handle (ended.answerOf index)) (close id)
          collect call result.exitCode : Act κ JobResult).run ended := by
    unfold runToEnd
    rw [run_bind, run_bind, hstart]
    dsimp only
    rw [run_bind, run_bind, hclosed]
    rcases (ensuring (settle id handle (ended.answerOf index)) (close id) :
      Act κ WaitResult).run ended with ⟨failure | result, m'⟩
    · rfl
    · rfl
  unfold block conclude
  rw [run_ensuring, run_ensuring, resultOf, stateAfter, hcollect]
  rfl

theorem run_block_of_started {id index : Nat} {handle : Handle}
    (hstart : (starting call).run m = (.ok (some id), started))
    (hwatches : started.Watches id index handle) (houtside : started.inTask = false)
    (hend : started.awaitEnd index = some ended) :
    (block call).run m = (conclude call id handle (ended.answerOf index)).run ended := by
  apply run_block_of_warned hstart _ hwatches hend
  rw [houtside, if_neg (by decide)]

end Act

/-! ## Exit codes -/

/-- If the program of the job is started, it ends in place. -/
def Job.EndsInPlace (job : Job) (m : Machine κ) : Prop :=
  ∀ {call : Call} {id : Nat} {prepared started : Machine κ},
    (Act.prepare job).run m = (.ok (.inr call), prepared) →
      (Act.starting call).run prepared = (.ok (some id), started) →
        ∃ ended, started.EndsInPlace m.programs.length ended

/-- The exit code that an answer of a program amounts to: a signal and a failure of the wait have
none of their own. -/
def Answer.exitCode : Answer → Int
  | .exited code => if 0 ≤ code then code else failureCode
  | _ => failureCode

/-- The exit code of a job.  That of a failure stands for a line that is no command and for a program
that cannot be started. -/
inductive Job.Exits (job : Job) (m : Machine κ) : Int → Prop
  | invalid (hwords : job.target.words? = none) : job.Exits m failureCode
  | unstarted {call : Call} {prepared started : Machine κ}
      (hprepare : (Act.prepare job).run m = (.ok (.inr call), prepared))
      (hstart : (Act.starting call).run prepared = (.ok none, started)) : job.Exits m failureCode
  | ended {call : Call} {id : Nat} {prepared started ended : Machine κ}
      (hprepare : (Act.prepare job).run m = (.ok (.inr call), prepared))
      (hstart : (Act.starting call).run prepared = (.ok (some id), started))
      (hend : started.awaitEnd m.programs.length = some ended) :
      job.Exits m (ended.answerOf m.programs.length).exitCode

/-- Why a job of which the exit code is wanted may fail: because its program cannot be looked for, or
because the remark that the wait has failed cannot be shown. -/
inductive Job.Fails (job : Job) (m : Machine κ) : Failure → Prop
  | start {call : Call} {failure : Failure} {prepared started : Machine κ}
      (hprepare : (Act.prepare job).run m = (.ok (.inr call), prepared))
      (hstart : (Act.starting call).run prepared = (.error failure, started)) : job.Fails m failure
  | remark {call : Call} {id : Nat} {text : String} {failure other : Failure}
      {prepared started ended : Machine κ}
      (hprepare : (Act.prepare job).run m = (.ok (.inr call), prepared))
      (hstart : (Act.starting call).run prepared = (.ok (some id), started))
      (hend : started.awaitEnd m.programs.length = some ended)
      (hanswer : ended.answerOf m.programs.length = .refused text ∨
        ended.answerOf m.programs.length = .broken text)
      (hremark : resultOf (Act.remarkWaitFailed call.program text) ended = .error other) :
      job.Fails m failure

/-- A result of the kind that is wanted tells an exit code. -/
def Wanted.Tells (code : Int) : Wanted → JobResult → Prop
  | .status, .status shown => shown = code
  | .output, .output shown _ => shown = code
  | .verdict, .verdict errors => errors = none ↔ code = successCode
  | .streams, .streams ok _ _ => ok = true ↔ code = successCode
  | _, _ => False

theorem Wanted.tells_invalid (wanted : Wanted) (command : String) :
    wanted.Tells failureCode (wanted.invalid command) := by
  cases wanted with
  | _ => simp [invalid, Tells, failureCode, successCode]

theorem Wanted.tells_result (wanted : Wanted) (code : Int) (first second : String) :
    wanted.Tells code (wanted.result code first second) := by
  cases wanted with
  | status => rfl
  | output => rfl
  | verdict =>
      by_cases hcode : code = successCode <;> simp [result, JobResult.ofRun, Tells, hcode]
  | streams => simp [result, Tells]

theorem WaitResult.exitCode_ofCode (code : Int) :
    (WaitResult.ofCode code).exitCode = if 0 ≤ code then code else failureCode := by
  unfold WaitResult.ofCode
  by_cases hcode : code < 0
  · rw [if_pos hcode, if_neg (by omega)]
    rfl
  · rw [if_neg hcode, if_pos (by omega)]
    rfl

namespace Act

variable {call : Call} {m started ended : Machine κ}

omit [Program κ] in
theorem tells_collect {code : Int} {result : JobResult} {m m' : Machine κ}
    (hcollect : (collect call code).run m = (.ok result, m')) : call.wanted.Tells code result := by
  unfold collect at hcollect
  split at hcollect
  · cases hcollect
    exact call.wanted.tells_result _ _ _
  · obtain ⟨_, _, -, hcollect⟩ := run_bind_eq_ok hcollect
    cases hcollect
    exact call.wanted.tells_result _ _ _
  · obtain ⟨_, _, -, hcollect⟩ := run_bind_eq_ok hcollect
    obtain ⟨_, _, -, hcollect⟩ := run_bind_eq_ok hcollect
    cases hcollect
    exact call.wanted.tells_result _ _ _

omit [Program κ] in
theorem tells_ensuring_collect {code : Int} {result : JobResult} {m m' : Machine κ}
    (hcollect : (ensuring (collect call code) (cleanUp call)).run m = (.ok result, m')) :
    call.wanted.Tells code result := by
  rcases ensuring_cases (collect call code) (cleanUp call) m with
    ⟨found, hfound, hrun⟩ | ⟨failure, hrun⟩
  · rw [hrun] at hcollect
    cases hcollect
    exact tells_collect (Prod.ext hfound rfl)
  · rw [hrun] at hcollect
    cases hcollect

omit [Program κ] in
theorem exitCode_of_settle {id index : Nat} {handle : Handle} {answer : Answer} {m m' : Machine κ}
    {settled : WaitResult} (hwatches : m.Watches id index handle)
    (hsettle : (settle id handle answer).run m = (.ok settled, m')) :
    settled.exitCode = answer.exitCode := by
  cases answer with
  | exited code =>
      rw [run_settle_exited hwatches] at hsettle
      cases hsettle
      exact WaitResult.exitCode_ofCode code
  | running =>
      rw [run_settle_running hwatches] at hsettle
      cases hsettle
      rfl
  | refused text | broken text =>
      rw [eq_unusable_of_settle hwatches (by simp) (by simp) hsettle]
      rfl

omit [Program κ] in
theorem tells_conclude {id index : Nat} {handle : Handle} {answer : Answer} {result : JobResult}
    {m m' : Machine κ} (hwatches : m.Watches id index handle)
    (hconclude : (conclude call id handle answer).run m = (.ok result, m')) :
    call.wanted.Tells answer.exitCode result := by
  obtain ⟨settled, m₁, hsettle⟩ : ∃ settled m₁,
      (settle id handle answer).run m = (settled, m₁) := ⟨_, _, rfl⟩
  obtain ⟨closed, m₂, hclose⟩ : ∃ closed m₂, (close id : Act κ Unit).run m₁ = (closed, m₂) :=
    ⟨_, _, rfl⟩
  rw [run_conclude hsettle hclose] at hconclude
  cases closed with
  | error failure => cases hconclude
  | ok _ =>
      cases settled with
      | error failure => cases hconclude
      | ok settled =>
          rw [← exitCode_of_settle hwatches hsettle]
          exact tells_ensuring_collect hconclude

/-- A program is started where the job has been prepared, and nothing has changed but the disk. -/
theorem watches_of_started (hload : LoadsQuietly κ) {job : Job} {id : Nat} {prepared : Machine κ}
    (hprepare : (prepare job).run m = (.ok (.inr call), prepared))
    (hstart : (starting call).run prepared = (.ok (some id), started)) :
    started.disk.currentPath = m.disk.currentPath ∧
      Settings.read started.environment = Settings.read m.environment ∧
        ∃ handle, started.Watches id m.programs.length handle ∧ handle.program = call.program := by
  have hprepared := (respects_prepare job).of_run hprepare
  have htried := tried_startTraced hload call.program call.argv call.out call.err prepared
  rw [hstart] at htried
  cases htried with
  | started hspawns _ =>
      have hcwd : started.disk.cwd = m.disk.cwd :=
        hspawns.disk.current.trans hprepared.disk.current
      have henvironment := hspawns.environment.trans hprepared.environment
      refine ⟨?_, by rw [henvironment], ?_⟩
      · rw [Disk.currentPath, Disk.currentPath, hcwd]
      · exact ((hasStarted_startTraced hstart).of_programs hprepared.programs).watches

/-- A blocking run that has started its program concludes with its answer. -/
theorem run_runBlocking_of_started (hload : LoadsQuietly κ) {job : Job} {id : Nat}
    {prepared : Machine κ} (houtside : m.inTask = false)
    (hprepare : (prepare job).run m = (.ok (.inr call), prepared))
    (hstart : (starting call).run prepared = (.ok (some id), started))
    (hend : started.awaitEnd m.programs.length = some ended) :
    ∃ handle, ended.Watches id m.programs.length handle ∧ handle.program = call.program ∧
      (runBlocking job).run m =
        (conclude call id handle (ended.answerOf m.programs.length)).run ended := by
  obtain ⟨-, -, handle, hwatches, hprogram⟩ := watches_of_started hload hprepare hstart
  have hstarted : started.inTask = false := by
    rw [((timeless_startTraced _ _ _ _).same hstart).2, ((timeless_prepare job).same hprepare).2,
      houtside]
  obtain ⟨last, rfl, -⟩ := Machine.exists_elapse_of_awaitEnd hend
  refine ⟨handle, hwatches.of_handles (started.handles_elapse last), hprogram, ?_⟩
  rw [run_runBlocking job m, hprepare]
  exact run_block_of_started hstart hwatches hstarted hend

omit [Program κ] in
theorem tells_prepare {job : Job} {result : JobResult} {prepared : Machine κ}
    (hprepare : (prepare job).run m = (.ok (.inl result), prepared)) :
    job.target.words? = none ∧ job.wanted.Tells failureCode result := by
  unfold prepare at hprepare
  split at hprepare
  · next hwords =>
      refine ⟨hwords, ?_⟩
      split at hprepare
      · cases hprepare
        exact job.wanted.tells_invalid _
      · cases hprepare
        exact job.wanted.tells_invalid _
  · obtain ⟨_, _, -, hprepare⟩ := run_bind_eq_ok hprepare
    cases hprepare

omit [Program κ] in
theorem prepare_ne_error {job : Job} {failure : Failure} {prepared : Machine κ}
    (hwanted : job.wanted = .status) :
    (prepare job).run m ≠ (.error failure, prepared) := by
  intro hprepare
  unfold prepare at hprepare
  split at hprepare
  · split at hprepare
    · cases hprepare
    · cases hprepare
  · rw [hwanted] at hprepare
    cases hprepare

omit [Program κ] in
/-- Nothing is captured of a run of which the exit code is wanted. -/
theorem call_of_prepare_inr {job : Job} {prepared : Machine κ}
    (hprepare : (prepare job).run m = (.ok (.inr call), prepared)) :
    call.wanted = job.wanted ∧ (job.wanted = .status → call.capture = .nowhere) := by
  unfold prepare at hprepare
  split at hprepare
  · split at hprepare
    · cases hprepare
    · cases hprepare
  · obtain ⟨capture, _, hcapture, hprepare⟩ := run_bind_eq_ok hprepare
    cases hprepare
    refine ⟨rfl, fun hwanted => ?_⟩
    rw [hwanted] at hcapture
    cases hcapture
    rfl

/-- What a blocking run returns tells the exit code of its job. -/
theorem exists_exits_of_runBlocking (hload : LoadsQuietly κ) {job : Job} {result : JobResult}
    (houtside : m.inTask = false) (hends : job.EndsInPlace m)
    (hresult : resultOf (runBlocking job) m = .ok result) :
    ∃ code, job.Exits m code ∧ job.wanted.Tells code result := by
  rw [resultOf, run_runBlocking job m] at hresult
  rcases hprepare : (prepare job : Act κ (JobResult ⊕ Call)).run m with
    ⟨failure | (found | call), prepared⟩
  all_goals
    rw [hprepare] at hresult
    dsimp only at hresult
  · cases hresult
  · cases hresult
    obtain ⟨hwords, htells⟩ := tells_prepare hprepare
    exact ⟨failureCode, .invalid hwords, htells⟩
  · rcases hstart : (starting call : Act κ (Option Nat)).run prepared with
      ⟨failure | (_ | id), started⟩
    · rw [run_block_of_failed hstart] at hresult
      cases hresult
    · rw [run_block_of_unstarted hstart] at hresult
      rw [← (call_of_prepare_inr hprepare).1]
      exact ⟨failureCode, .unstarted hprepare hstart,
        tells_ensuring_collect (Prod.ext hresult rfl)⟩
    · obtain ⟨ended, hended⟩ := hends hprepare hstart
      obtain ⟨handle, hwatches, -, hrun⟩ :=
        run_runBlocking_of_started hload houtside hprepare hstart hended.ends
      have hconclude : resultOf (runBlocking job) m = .ok result := by
        rw [resultOf, run_runBlocking job m, hprepare]
        exact hresult
      rw [resultOf, hrun] at hconclude
      rw [← (call_of_prepare_inr hprepare).1]
      exact ⟨_, .ended hprepare hstart hended.ends, tells_conclude hwatches (Prod.ext hconclude rfl)⟩

omit [Program κ] in
/-- Taking an answer fails only where the wait has failed and there is no telling so. -/
theorem remark_of_settle {id index : Nat} {handle : Handle} {answer : Answer} {m' : Machine κ}
    {failure : Failure} (hwatches : m.Watches id index handle)
    (hsettle : (settle id handle answer).run m = (.error failure, m')) :
    ∃ text other, (answer = .refused text ∨ answer = .broken text) ∧
      resultOf (remarkWaitFailed handle.program text : Act κ Unit) m = .error other := by
  cases answer with
  | exited code =>
      rw [run_settle_exited hwatches] at hsettle
      cases hsettle
  | running =>
      rw [run_settle_running hwatches] at hsettle
      cases hsettle
  | refused text =>
      rw [settle, run_tryCatch, run_takeAnswer hwatches] at hsettle
      dsimp only at hsettle
      rw [run_bind] at hsettle
      rcases hremark : (remarkWaitFailed handle.program text : Act κ Unit).run m with
        ⟨other | _, told⟩
      · exact ⟨text, other, Or.inl rfl, resultOf_of_run hremark⟩
      · rw [hremark] at hsettle
        cases hsettle
  | broken text =>
      rw [settle, run_tryCatch, run_takeAnswer hwatches] at hsettle
      dsimp only at hsettle
      rw [run_throw] at hsettle
      dsimp only at hsettle
      rw [run_bind, run_handleAt] at hsettle
      dsimp only at hsettle
      rw [hwatches.found, Option.getD_some, run_bind] at hsettle
      rcases hremark : (remarkWaitFailed handle.program (Failure.waitBroken text).message :
        Act κ Unit).run m with ⟨other | _, told⟩
      · exact ⟨text, other, Or.inr rfl, resultOf_of_run hremark⟩
      · rw [hremark] at hsettle
        cases hsettle

omit [Program κ] in
theorem run_ensuring_collect_nowhere (hnowhere : call.capture = .nowhere) (code : Int)
    (m : Machine κ) : ∃ result,
      resultOf (ensuring (collect call code) (cleanUp call)) m = .ok result := by
  have hcollect : resultOf (collect call code) m = .ok (call.wanted.result code "" "") := by
    unfold collect
    rw [hnowhere]
    rfl
  refine ⟨call.wanted.result code "" "", ?_⟩
  rw [resultOf, run_ensuring, run_cleanUp, hcollect]

theorem fails_of_runBlocking (hload : LoadsQuietly κ) {job : Job} {failure : Failure}
    (hwanted : job.wanted = .status) (houtside : m.inTask = false) (hends : job.EndsInPlace m)
    (hresult : resultOf (runBlocking job) m = .error failure) : job.Fails m failure := by
  have hblocking := run_runBlocking job m
  rcases hprepare : (prepare job : Act κ (JobResult ⊕ Call)).run m with
    ⟨failure | (found | call), prepared⟩
  · exact absurd hprepare (prepare_ne_error hwanted)
  · rw [hprepare] at hblocking
    rw [resultOf, hblocking] at hresult
    cases hresult
  · rw [hprepare] at hblocking
    dsimp only at hblocking
    obtain ⟨-, hnowhere⟩ := call_of_prepare_inr hprepare
    rcases hstart : (starting call : Act κ (Option Nat)).run prepared with
      ⟨failure | (_ | id), started⟩
    · rw [run_block_of_failed hstart] at hblocking
      rw [resultOf, hblocking] at hresult
      cases hresult
      exact .start hprepare hstart
    · rw [run_block_of_unstarted hstart] at hblocking
      obtain ⟨result, hcollect⟩ :=
        run_ensuring_collect_nowhere (hnowhere hwanted) failureCode started
      rw [resultOf, hblocking, ← resultOf, hcollect] at hresult
      cases hresult
    · obtain ⟨ended, hended⟩ := hends hprepare hstart
      obtain ⟨handle, hwatches, hprogram, hrun⟩ :=
        run_runBlocking_of_started hload houtside hprepare hstart hended.ends
      obtain ⟨settled, m₁, hsettle⟩ : ∃ settled m₁,
          (settle id handle (ended.answerOf m.programs.length)).run ended = (settled, m₁) :=
        ⟨_, _, rfl⟩
      have hquiet : Quiet ended m₁ :=
        (quiet_guardedWait_poll id).of_run ((run_guardedWait_poll hwatches).trans hsettle)
      have hopen : m₁.accounts[id]? = some (handle.owned, false) := by
        rw [hquiet.accounts, accounts_getElem?, hwatches.found, Option.map_some, Handle.account,
          hwatches.isOpen]
      obtain ⟨m₂, hclose, -⟩ := closed_close hopen
      rw [run_conclude hsettle hclose] at hrun
      cases settled with
      | error other =>
          rw [resultOf, hrun] at hresult
          cases hresult
          obtain ⟨text, _, hanswer, hremark⟩ := remark_of_settle hwatches hsettle
          exact .remark hprepare hstart hended.ends hanswer (hprogram ▸ hremark)
      | ok settled =>
          obtain ⟨result, hcollect⟩ :=
            run_ensuring_collect_nowhere (hnowhere hwanted) settled.exitCode m₂
          rw [resultOf, hrun] at hresult
          exact absurd (hcollect.symm.trans hresult) (by simp)

end Act

end BuildRunner
