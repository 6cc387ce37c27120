import BuildRunner.Proofs.Execution.Agreement
import BuildRunner.Proofs.Execution.Verdicts

/-!
# First turns of runs

The first turn of a run names its scratch file, expands its arguments and starts its program.  Where
the current directory and the scratch directory are in place, all that can go wrong is that the
system refuses the start, on which a remark is made.  So the run waits or has come to a verdict.
-/

namespace BuildRunner

open BuildRunner.Schedule Console

variable {κ : Type}

/-- Programs and handles may have been added, and scratch names taken. -/
structure Grows (taken : Nat) (m m' : Machine κ) : Prop where
  handles : m.handles <+: m'.handles
  programs : m.programs <+: m'.programs
  environment : m'.environment = m.environment
  scratch : m'.scratch ≤ m.scratch + taken
  out : m'.out = m.out

theorem Grows.trans {taken more : Nat} {m m' m'' : Machine κ} (h : Grows taken m m')
    (h' : Grows more m' m'') : Grows (taken + more) m m'' := by
  have hfirst := h.scratch
  have hsecond := h'.scratch
  exact ⟨h.handles.trans h'.handles, h.programs.trans h'.programs,
    h'.environment.trans h.environment, by omega, h'.out.trans h.out⟩

theorem isFrame_grows : IsFrame (Grows 0 : Machine κ → Machine κ → Prop) where
  refl _ := ⟨List.prefix_refl _, List.prefix_refl _, rfl, Nat.le_refl _, rfl⟩
  trans h h' := h.trans h'

/-- A failure that keeps a program from starting, and on which a remark can be made. -/
structure Failure.IsRefusal (failure : Failure) : Prop where
  prevents : failure.PreventsStart
  shown : closes failure.message.toList = false

theorem isRefusal_system (code : Errno) (path target : Option String) :
    (Failure.system code path target).IsRefusal := ⟨rfl, closes_message_system code path target⟩

theorem isRefusal_nullByte : Failure.nullByte.IsRefusal := ⟨rfl, by decide⟩

/-- The arguments with their stars expanded, as the disk is. -/
def Disk.expanded (d : Disk) : List String → Except Failure (List String)
  | [] => .ok []
  | argument :: rest => do
    let first ←
      if argument.toList.contains '*' then
        match d.matchPattern argument .any with
        | .ok paths => .ok (if paths.isEmpty then [argument] else paths)
        | .error code => .error (.system code none none)
      else .ok [argument]
    let others ← d.expanded rest
    return first ++ others

namespace Act

theorem failsAs_openOutput (sink : Sink) :
    FailsAs Failure.IsRefusal (openOutput sink : Act κ (Option Nat)) := by
  cases sink with
  | inherit => exact failsAs_of_ok fun _ => ⟨_, rfl⟩
  | file index => exact failsAs_of_ok fun _ => ⟨_, rfl⟩
  | path path =>
      intro m failure hfailure
      dsimp only [openOutput] at hfailure
      cases hnul : Disk.hasNul path with
      | true =>
          rw [hnul, if_pos rfl] at hfailure
          cases hfailure
          exact isRefusal_nullByte
      | false =>
          rw [hnul, if_neg (by decide), resultOf, run_bind, run_get] at hfailure
          dsimp only at hfailure
          cases hopen : m.disk.openFile false path with
          | error code =>
              rw [hopen] at hfailure
              cases hfailure
              exact isRefusal_system _ _ _
          | ok found =>
              rw [hopen] at hfailure
              cases hfailure

theorem grows_openOutput (sink : Sink) :
    Respects (Grows 0) (openOutput sink : Act κ (Option Nat)) := by
  intro m
  cases sink with
  | inherit => exact isFrame_grows.refl m
  | file index => exact isFrame_grows.refl m
  | path path =>
      rcases openOutput_path path m with ⟨failure, -, hrun⟩ | ⟨disk, -, hrun⟩
      · rw [stateAfter_of_run hrun]
        exact isFrame_grows.refl m
      · rw [stateAfter_of_run hrun]
        exact ⟨List.prefix_refl _, List.prefix_refl _, rfl, Nat.le_refl _, rfl⟩

variable [Program κ]

theorem failsAs_launch (program : String) (argv : List String) (out err : Option Nat)
    (owned : List Nat) :
    FailsAs Failure.IsRefusal (launch program argv out err owned : Act κ Nat) := by
  intro m failure hfailure
  unfold launch at hfailure
  split at hfailure
  · cases hfailure
    exact isRefusal_nullByte
  · rw [resultOf, run_bind, run_get] at hfailure
    dsimp only at hfailure
    cases hloaded : (Program.load m.disk m.environment (program :: argv) out err :
        Except Errno (Disk × κ)) with
    | error code =>
        rw [hloaded] at hfailure
        cases hfailure
        exact isRefusal_system _ _ _
    | ok found =>
        rw [hloaded] at hfailure
        cases hfailure

theorem grows_launch (program : String) (argv : List String) (out err : Option Nat)
    (owned : List Nat) : Respects (Grows 0) (launch program argv out err owned : Act κ Nat) := by
  intro m
  unfold launch
  split
  · exact isFrame_grows.refl m
  · rw [stateAfter, run_bind, run_get]
    dsimp only
    cases (Program.load m.disk m.environment (program :: argv) out err :
        Except Errno (Disk × κ)) with
    | error code => exact isFrame_grows.refl m
    | ok found => exact ⟨List.prefix_append _ _, List.prefix_append _ _, rfl, Nat.le_refl _, rfl⟩

theorem failsAs_openAndLaunch (program : String) (argv : List String) (out err : Sink) :
    FailsAs Failure.IsRefusal (openAndLaunch program argv out err : Act κ Nat) := by
  unfold openAndLaunch
  refine failsAs_bind (failsAs_of_ok fun _ => ⟨_, rfl⟩) fun before => ?_
  refine failsAs_bind (failsAs_openOutput out) fun outFile => ?_
  have hrest : ∀ errFile, FailsAs Failure.IsRefusal (do
      let now ← get
      launch program argv outFile errFile (now.held.drop before.held.length) : Act κ Nat) :=
    fun errFile => failsAs_bind (failsAs_of_ok fun _ => ⟨_, rfl⟩) fun now =>
      failsAs_launch program argv outFile errFile _
  dsimp only
  split
  · split
    · exact failsAs_bind (failsAs_of_ok fun _ => ⟨_, rfl⟩) hrest
    · exact failsAs_bind (failsAs_openOutput _) hrest
  · exact failsAs_bind (failsAs_openOutput _) hrest

theorem grows_openAndLaunch (program : String) (argv : List String) (out err : Sink) :
    Respects (Grows 0) (openAndLaunch program argv out err : Act κ Nat) := by
  unfold openAndLaunch
  refine respects_bind isFrame_grows (respects_get isFrame_grows) fun before => ?_
  refine respects_bind isFrame_grows (grows_openOutput out) fun outFile => ?_
  have hrest : ∀ errFile, Respects (Grows 0) (do
      let now ← get
      launch program argv outFile errFile (now.held.drop before.held.length) : Act κ Nat) :=
    fun errFile => respects_bind isFrame_grows (respects_get isFrame_grows) fun now =>
      grows_launch program argv outFile errFile _
  dsimp only
  split
  · split
    · exact respects_bind isFrame_grows (respects_pure isFrame_grows _) hrest
    · exact respects_bind isFrame_grows (grows_openOutput _) hrest
  · exact respects_bind isFrame_grows (grows_openOutput _) hrest

/-- A program is started, or it is remarked that it cannot be. -/
theorem exists_run_start (program : String) (argv : List String) (out err : Sink) (m : Machine κ) :
    ∃ started m', (start program argv out err : Act κ (Option Nat)).run m = (.ok started, m') ∧
      Grows 0 m m' := by
  have hgrows := grows_openAndLaunch program argv out err m
  have hfails := failsAs_openAndLaunch program argv out err m
  unfold start
  rw [run_bind, run_get]
  dsimp only
  rw [run_tryCatch, run_map]
  rcases hrun : (openAndLaunch program argv out err : Act κ Nat).run m with ⟨failure | id, m₁⟩
  · rw [stateAfter_of_run hrun] at hgrows
    obtain ⟨hprevents, hshown⟩ := hfails failure (resultOf_of_run hrun)
    obtain ⟨line, htold⟩ := @exists_run_remark_on κ "cannot start " (by decide) (by decide) program
      _ hshown { m₁ with held := m.held }
    rw [Failure.PreventsStart] at hprevents
    dsimp only
    rw [if_pos hprevents, run_bind, run_modify]
    dsimp only
    rw [run_bind, htold]
    exact ⟨none, _, rfl, hgrows.handles, hgrows.programs, hgrows.environment, hgrows.scratch,
      hgrows.out⟩
  · rw [stateAfter_of_run hrun] at hgrows
    exact ⟨some id, m₁, rfl, hgrows⟩

/-! ### Arguments -/

omit [Program κ]

/-- Where the current directory stands, every pattern can be matched. -/
theorem exists_matchPattern {d : Disk} {here : String} (hhere : d.cwd.path? = some here)
    (pattern : String) (mode : Glob.Mode) : ∃ paths, d.matchPattern pattern mode = .ok paths := by
  have hfind : ∀ root search, ∃ paths, d.find root search = .ok paths := by
    intro root search
    have hbase : ∃ base, d.searchBase root = some base := by
      unfold Disk.searchBase
      split
      · exact ⟨_, rfl⟩
      · exact ⟨_, hhere⟩
    obtain ⟨base, hbase⟩ := hbase
    unfold Disk.find Disk.findSelected
    split
    · exact ⟨_, rfl⟩
    · split
      · rw [hbase]
        exact ⟨_, rfl⟩
      · exact ⟨_, rfl⟩
  unfold Disk.matchPattern
  dsimp only
  split
  · obtain ⟨paths, hpaths⟩ := hfind (Glob.Pattern.compile pattern).root
      ((Glob.Pattern.compile pattern).search mode)
    rw [hpaths]
    exact ⟨_, rfl⟩
  · exact ⟨_, rfl⟩

theorem run_expandArguments (arguments : List String) (m : Machine κ) :
    ∃ line, (expandArguments arguments).run m =
      (m.disk.expanded arguments, { m with err := m.err ++ line }) := by
  have hsame : ∀ m : Machine κ, m = { m with err := m.err ++ "" } := by simp
  induction arguments generalizing m with
  | nil => exact ⟨"", congrArg _ (hsame m)⟩
  | cons argument rest ih =>
      unfold expandArguments expandArgument Disk.expanded
      rw [run_bind]
      by_cases hstar : argument.toList.contains '*' = true
      · have hempty : ¬ argument.isEmpty = true := by
          rw [String.isEmpty_iff]
          intro hempty
          simp [hempty] at hstar
        obtain ⟨line, hmatch⟩ := run_matchPaths argument .any m
        rw [if_neg hempty] at hmatch
        rw [if_pos hstar, if_pos hstar, run_bind, hmatch]
        cases m.disk.matchPattern argument .any with
        | error code => exact ⟨line, rfl⟩
        | ok paths =>
            obtain ⟨others, hothers⟩ := ih { m with err := m.err ++ line }
            refine ⟨line ++ others, ?_⟩
            dsimp only [Except.mapError]
            rw [run_pure]
            dsimp only
            rw [run_bind, hothers, ← String.append_assoc]
            cases m.disk.expanded rest with
            | error failure => rfl
            | ok found => rfl
      · obtain ⟨others, hothers⟩ := ih m
        refine ⟨others, ?_⟩
        rw [if_neg hstar, if_neg hstar, run_pure]
        dsimp only
        rw [run_bind, hothers]
        cases m.disk.expanded rest with
        | error failure => rfl
        | ok found => rfl

theorem exists_expanded {d : Disk} {here : String} (hhere : d.cwd.path? = some here)
    (arguments : List String) :
    ∃ expanded, d.expanded arguments = .ok expanded := by
  induction arguments with
  | nil => exact ⟨[], rfl⟩
  | cons argument rest ih =>
      obtain ⟨paths, hpaths⟩ := exists_matchPattern hhere argument .any
      obtain ⟨others, hothers⟩ := ih
      unfold Disk.expanded
      rw [hpaths, hothers]
      split
      · exact ⟨_, rfl⟩
      · exact ⟨_, rfl⟩

variable [Program κ]

/-- Before a program is started its arguments are expanded, and that it is may be told. -/
theorem run_startTraced (program : String) (argv : List String) (out err : Sink)
    (m : Machine κ) :
    ∃ line, (startTraced program argv out err).run m =
      match m.disk.expanded argv with
      | .ok arguments => (start program arguments out err).run { m with err := m.err ++ line }
      | .error failure => (.error failure, { m with err := m.err ++ line }) := by
  obtain ⟨line, hexpand⟩ := run_expandArguments argv m
  unfold startTraced
  rw [run_bind, hexpand]
  cases m.disk.expanded argv with
  | error failure => exact ⟨line, rfl⟩
  | ok arguments =>
      dsimp only
      rw [run_bind, run_verbose]
      dsimp only
      split
      · have hshows : Shows remarkStyles 0 ("exec ".toList ++
            ((Console.escape (Command.join (program :: arguments))).toList ++ remarkEnd)) :=
          (follows_remarkEnd.value _).unmarked (by decide) (by decide) 0
        obtain ⟨told, hremark⟩ := @exists_run_remark κ
          ("exec " ++ Console.escape (Command.join (program :: arguments)))
          (by simpa only [String.toList_append, List.append_assoc] using hshows)
          { m with err := m.err ++ line }
        refine ⟨line ++ told, ?_⟩
        rw [run_bind, hremark, ← String.append_assoc]
      · exact ⟨line, rfl⟩

theorem exists_run_startTraced {here : String} (program : String) (argv : List String)
    (out err : Sink) {m : Machine κ} (hhere : m.disk.cwd.path? = some here) :
    ∃ started m', (startTraced program argv out err).run m = (.ok started, m') ∧ Grows 0 m m' := by
  obtain ⟨arguments, hexpanded⟩ := exists_expanded hhere argv
  obtain ⟨line, hrun⟩ := run_startTraced program argv out err m
  obtain ⟨started, m', hstart, hstarted⟩ := exists_run_start program arguments out err
    { m with err := m.err ++ line }
  have hgrows : Grows 0 m { m with err := m.err ++ line } :=
    ⟨List.prefix_refl _, List.prefix_refl _, rfl, Nat.le_refl _, rfl⟩
  rw [hexpanded] at hrun
  exact ⟨started, m', hrun.trans hstart, hgrows.trans hstarted⟩

end Act

/-! ## Verdicts on command lines -/

/-- The job of a command line on which a verdict is wanted. -/
def Job.ofCommand (command : String) : Job := { wanted := .verdict, target := .line command }

/-- The call of a command line. -/
def Call.ofWords (log program : String) (argv : List String) : Call :=
  { wanted := .verdict
    program
    argv
    capture := .joined log
    out := .path log
    err := .path log }

/-- The verdict on a text that is no command line. -/
def invalidVerdict (command : String) : Option String := some ("invalid command: " ++ command)

namespace Act

theorem run_prepare_of_invalid {command : String} (hparse : Command.parse command = none)
    (m : Machine κ) :
    (prepare (.ofCommand command)).run m = (.ok (.inl (.verdict (invalidVerdict command))), m) := by
  have hwords : (Job.ofCommand command).target.words? = none := by
    show (Command.parse command).map _ = none
    rw [hparse]
    rfl
  unfold prepare
  rw [hwords]
  rfl

/-- Where the scratch directory is in place, a scratch file can be named. -/
theorem exists_run_scratchPath {m : Machine κ} {settings : Settings} {base : String}
    (hsettings : Settings.read m.environment = .ok settings)
    (htmpdir : settings.tmpdir.getD systemScratch = base) (hbase : FitsScratch base)
    (hplace : m.disk.InPlace base) :
    ∃ disk location, scratchPath.run m =
        (.ok (scratchFile base m.scratch), { m with disk, scratch := m.scratch + 1 }) ∧
      disk.tree.HasScratch base location ∧ disk.InPlace base := by
  subst htmpdir
  obtain ⟨disk, location, hmake, hscratch, hplace'⟩ := hbase.exists_run_makeDirectories hplace
  refine ⟨disk, location, ?_, hscratch, hplace'⟩
  unfold scratchPath scratchDirectory
  rw [run_bind, run_bind, run_settings, hsettings]
  dsimp only
  rw [run_bind, run_onDisk, resultOf, stateAfter, hmake]
  rfl

theorem exists_run_prepare {command : String} {words : List String}
    (hparse : Command.parse command = some words) {m : Machine κ} {settings : Settings}
    {base : String} (hsettings : Settings.read m.environment = .ok settings)
    (htmpdir : settings.tmpdir.getD systemScratch = base) (hbase : FitsScratch base)
    (hplace : m.disk.InPlace base) :
    ∃ disk location, (prepare (.ofCommand command)).run m =
        (.ok (.inr (.ofWords (scratchFile base m.scratch) (words.headD "") (words.drop 1))),
          { m with disk, scratch := m.scratch + 1 }) ∧
      disk.tree.HasScratch base location ∧ disk.InPlace base := by
  have hwords : (Job.ofCommand command).target.words? = some (words.headD "", words.drop 1) := by
    show (Command.parse command).map _ = _
    rw [hparse]
    rfl
  obtain ⟨disk, location, hpath, hscratch, hplace'⟩ :=
    exists_run_scratchPath hsettings htmpdir hbase hplace
  refine ⟨disk, location, ?_, hscratch, hplace'⟩
  have hcapture : (prepareCapture (Job.ofCommand command).wanted).run m =
      (.ok (.joined (scratchFile base m.scratch)), { m with disk, scratch := m.scratch + 1 }) := by
    show (do return .joined (← scratchPath) : Act κ Capture).run m = _
    rw [run_bind, hpath]
    rfl
  unfold prepare
  rw [hwords]
  dsimp only
  rw [run_bind, hcapture]
  rfl

variable [Program κ]

/-- A job whose program cannot be started ends with its first turn. -/
theorem resume_job_of_unstarted {job : Job} {call : Call} {result : JobResult}
    {m prepared started : Machine κ} (hprepare : (prepare job).run m = (.ok (.inr call), prepared))
    (hstart : (starting call).run prepared = (.ok none, started))
    (hcollect : (collect call failureCode).run started = (.ok result, started)) :
    coroutine.resume (.fresh (.job job)) m =
      (.ok (.ended (.run result)),
        { started with disk := started.disk.without call.capture.paths }) := by
  obtain ⟨htime, hprepared⟩ := (timeless_prepare job).same hprepare
  obtain ⟨htime', hstarted⟩ := (timeless_startTraced _ _ _ _).same hstart
  have hbegin := run_beginJob job (m.shifted m.clock true)
  rw [(timeless_prepare job).run hprepare] at hbegin
  dsimp only at hbegin
  have hend : (ensuring (collect call failureCode) (cleanUp call)).run
      (started.shifted m.clock true) = (.ok result,
        { started.shifted m.clock true with disk := started.disk.without call.capture.paths }) := by
    rw [run_ensuring, resultOf, stateAfter, (timeless_collect _ _).run hcollect]
    dsimp only
    rw [run_cleanUp]
    rfl
  rw [run_beginCall_of_unstarted ((timeless_startTraced _ _ _ _).run hstart m.clock true), run_map,
    hend] at hbegin
  have hturn : (turn (.fresh (.job job)) : Act κ (Progress TaskState TaskResult)).run
      { m with inTask := true } = (.ok (.ended (.run result)),
        { started.shifted m.clock true with disk := started.disk.without call.capture.paths }) := by
    unfold turn
    rw [run_map_progress]
    exact congrArg Polled.turned hbegin
  rw [resume_eq, resultOf, stateAfter, hturn, ← hprepared, ← hstarted, ← htime, ← htime']
  rfl

theorem resume_job_of_invalid {command : String} (hparse : Command.parse command = none)
    (m : Machine κ) :
    coroutine.resume (.fresh (.job (.ofCommand command))) m =
      (.ok (.ended (.run (.verdict (invalidVerdict command)))), m) := by
  have hbegin := run_beginJob (.ofCommand command) { m with inTask := true }
  rw [run_prepare_of_invalid hparse] at hbegin
  rw [resume_eq, resultOf, stateAfter]
  unfold turn
  rw [run_map_progress, hbegin]
  rfl

end Act

/-! ## The first turn -/

/-- A machine tries to start the program of a command line with its arguments, which succeeds or is
refused by the system. -/
def Machine.Tries [Program κ] (m : Machine κ) (command : String) : Prop :=
  ∃ words log prepared id started, Command.parse command = some words ∧
    (Act.prepare (.ofCommand command)).run m =
      (.ok (.inr (.ofWords log (words.headD "") (words.drop 1))), prepared) ∧
    (Act.starting (.ofWords log (words.headD "") (words.drop 1))).run prepared = (.ok id, started)

/-- What the first turn of a command line leads to, where no run fails. -/
inductive FirstTurn [Program κ] (base command : String) (delay : Option Nat) (m : Machine κ) :
    Except Failure (Progress TaskState TaskResult) × Machine κ → Prop
  | invalid (hparse : Command.parse command = none) :
      FirstTurn base command delay m (.ok (.ended (.run (.verdict (invalidVerdict command)))), m)
  | ended {errors : Option String} {m' : Machine κ} (htries : m.Tries command)
      (hgrows : Grows 1 m m') (hplace : m'.disk.InPlace base) :
      FirstTurn base command delay m (.ok (.ended (.run (.verdict errors))), m')
  | waits {waiting : Waiting} {index : Nat} {m' : Machine κ} (htries : m.Tries command)
      (hgrows : Grows 1 m m') (hplace : m'.disk.InPlace base)
      (hawaits : waiting.Awaits base m' index) (hnew : m.handles.length ≤ waiting.handle) :
      FirstTurn base command delay m (.ok (.paused delay (.waiting waiting)), m')

theorem prefix_set_of_le {α : Type} {l l' : List α} {i : Nat} (hfront : l <+: l')
    (hle : l.length ≤ i) (a : α) : l <+: l'.set i a := by
  obtain ⟨rest, rfl⟩ := hfront
  rw [List.set_append_right i a hle]
  exact List.prefix_append _ _

/-- A new handle may be closed again. -/
theorem Grows.closesHandle {taken id : Nat} {m m' m'' : Machine κ} (hgrows : Grows taken m m')
    (hcloses : ClosesHandle id m' m'') (hnew : m.handles.length ≤ id) : Grows taken m m'' := by
  obtain ⟨handle, hhandles⟩ := hcloses.handles
  refine ⟨?_, hcloses.programs ▸ hgrows.programs,
    hcloses.environment.trans hgrows.environment, hcloses.scratch ▸ hgrows.scratch,
    hcloses.out.trans hgrows.out⟩
  rw [hhandles]
  exact prefix_set_of_le hgrows.handles hnew handle

namespace Act

variable [Program κ]

/-- Where everything is in place, the first turn of a command line ends with a verdict or leaves a
run that waits. -/
theorem firstTurn_resume (hload : LoadsQuietly κ) (hshown : AnswersShown κ) (command : String)
    {m : Machine κ} {settings : Settings} {base : String}
    (hsettings : Settings.read m.environment = .ok settings)
    (htmpdir : settings.tmpdir.getD systemScratch = base) (hbase : FitsScratch base)
    (hplace : m.disk.InPlace base) (hnames : m.scratch < 16 ^ 32) :
    FirstTurn base command settings.pollDelay m
      (coroutine.resume (.fresh (.job (.ofCommand command))) m) := by
  cases hparse : Command.parse command with
  | none =>
      rw [resume_job_of_invalid hparse]
      exact .invalid hparse
  | some words =>
      obtain ⟨disk, location, hprepare, hscratch, hplace₁⟩ :=
        exists_run_prepare hparse hsettings htmpdir hbase hplace
      have hprepared : Grows 1 m { m with disk, scratch := m.scratch + 1 } :=
        ⟨List.prefix_refl _, List.prefix_refl _, rfl, Nat.le_refl _, rfl⟩
      generalize hlog : scratchFile base m.scratch = log at hprepare
      obtain ⟨id, started, hstart, hstarted⟩ := exists_run_startTraced (words.headD "")
        (words.drop 1) (.path log) (.path log) (m := { m with disk, scratch := m.scratch + 1 })
        (Place.path?_eq hplace₁.here)
      have hgrows : Grows 1 m started := hprepared.trans hstarted
      have htries : m.Tries command := ⟨words, log, _, id, started, hparse, hprepare, hstart⟩
      have htried := tried_startTraced hload (words.headD "") (words.drop 1) (.path log) (.path log)
        { m with disk, scratch := m.scratch + 1 }
      rw [hstart] at htried
      cases htried with
      | refused hspawns _ =>
          have hplace₂ : started.disk.InPlace base :=
            hplace₁.of_opens hbase hscratch hspawns.disk
          obtain ⟨errors, hcollect⟩ := exists_run_collect hbase hnames
            (.ofWords log (words.headD "") (words.drop 1)) rfl (hlog ▸ rfl) failureCode
            hplace₂.scratch
          rw [resume_job_of_unstarted hprepare hstart hcollect]
          refine .ended htries ⟨hgrows.handles, hgrows.programs, hgrows.environment, hgrows.scratch,
            hgrows.out⟩ ?_
          have hclean := hplace₂.without_scratchFile hbase hnames
          rw [hlog] at hclean
          exact hclean
      | @started id _ hspawns hmade =>
          have hplace₂ : started.disk.InPlace base :=
            hplace₁.of_opens hbase hscratch hspawns.disk
          obtain ⟨path, hhere, hnul⟩ := hplace₂.exists_path
          obtain ⟨-, -, handle, hwatches, -⟩ := watches_of_started hload hprepare hstart
          have hprograms := hasStarted_startTraced hstart
          have hawaits : Waiting.Awaits
              { call := .ofWords log (words.headD "") (words.drop 1), handle := id, saved := path }
              base started m.programs.length :=
            ⟨rfl, ⟨m.scratch, hnames, hlog ▸ rfl⟩, hnul, hprograms.programs, handle, hwatches⟩
          have hnew : m.handles.length ≤ id := by
            rw [hmade.id]
            exact Nat.le_of_eq (List.length_map _).symm
          rw [resume_job_of_started hprepare hstart hhere]
          have hread : Settings.read started.environment = .ok settings := by
            rw [hgrows.environment, hsettings]
          rcases resume_awaiting hshown hbase hplace₂ hread hawaits with
            ⟨-, hresume⟩ | ⟨errors, m', hresume, hcloses, hplace₃⟩
          · rw [hresume]
            exact .waits htries hgrows hplace₂ hawaits hnew
          · rw [hresume]
            exact .ended htries (hgrows.closesHandle hcloses hnew) hplace₃

end Act

end BuildRunner
