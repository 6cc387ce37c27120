import BuildRunner.Proofs.Execution.Actors
import BuildRunner.Proofs.Execution.Handles

/-!
# One command, four results

A command line can be run for its exit code, for its output, for a verdict, and for its two outputs
apart.  However its process goes, the results agree: there is one exit code, or one failure, that
all of them tell.  A text that is no command line starts nothing and changes nothing.
-/

namespace BuildRunner

open Console

variable {κ : Type}

/-! ## Outputs that can be opened -/

/-- The outputs of a program can be opened, and the disk once they are. -/
inductive Disk.Readies (d : Disk) : Sink → Sink → Disk → Prop
  | inherited : d.Readies .inherit .inherit d
  | joined {log : String} {d' : Disk} {index : Nat} (hnul : Disk.hasNul log = false)
      (hopen : d.openFile false log = .ok (d', index)) : d.Readies (.path log) (.path log) d'
  | apart {out err : String} {d₁ d' : Disk} {first second : Nat} (hne : out ≠ err)
      (hnulOut : Disk.hasNul out = false) (hout : d.openFile false out = .ok (d₁, first))
      (hnulErr : Disk.hasNul err = false) (herr : d₁.openFile false err = .ok (d', second)) :
      d.Readies (.path out) (.path err) d'

namespace Act

theorem run_openOutput {m : Machine κ} {path : String} {d' : Disk} {index : Nat}
    (hnul : Disk.hasNul path = false) (hopen : m.disk.openFile false path = .ok (d', index)) :
    (openOutput (.path path)).run m =
      (.ok (some index), { m with disk := d', held := m.held ++ [index] }) := by
  dsimp only [openOutput]
  rw [hnul, if_neg (by decide), run_bind, run_get]
  dsimp only
  rw [hopen]
  rfl

variable [Program κ]

/-- Two outputs are opened one after the other. -/
theorem run_openAndLaunch_apart {m : Machine κ} {out err : String} {d₁ d' : Disk}
    {first second : Nat} (hne : out ≠ err) (hnulOut : Disk.hasNul out = false)
    (hout : m.disk.openFile false out = .ok (d₁, first)) (hnulErr : Disk.hasNul err = false)
    (herr : d₁.openFile false err = .ok (d', second)) (program : String) (argv : List String) :
    ∃ held owned, (openAndLaunch program argv (.path out) (.path err)).run m =
      (launch program argv (some first) (some second) owned).run { m with disk := d', held } := by
  have hapart : (Sink.path err == Sink.path out) = false := by
    rw [beq_eq_false_iff_ne, ne_eq, Sink.path.injEq]
    exact Ne.symm hne
  have hsecond := @run_openOutput κ { m with disk := d₁, held := m.held ++ [first] } _ _ _
    hnulErr herr
  unfold openAndLaunch
  rw [run_bind, run_get]
  dsimp only
  rw [run_bind, run_openOutput hnulOut hout]
  dsimp only
  rw [hapart, if_neg Bool.false_ne_true, run_bind, hsecond]
  exact ⟨_, _, rfl⟩

/-- Where the outputs can be opened, the program is launched on them. -/
theorem run_openAndLaunch {m : Machine κ} {out err : Sink} {d' : Disk}
    (hreadies : m.disk.Readies out err d') (program : String) (argv : List String) :
    ∃ held outFile errFile owned, (openAndLaunch program argv out err).run m =
      (launch program argv outFile errFile owned).run { m with disk := d', held } := by
  cases hreadies with
  | inherited => exact ⟨m.held, none, none, _, rfl⟩
  | joined hnul hopen =>
      unfold openAndLaunch
      rw [run_bind, run_get]
      dsimp only
      rw [run_bind, run_openOutput hnul hopen]
      dsimp only
      rw [beq_self_eq_true, if_pos rfl]
      exact ⟨_, _, _, _, rfl⟩
  | @apart out err d₁ d' first second hne hnulOut hout hnulErr herr =>
      obtain ⟨held, owned, hrun⟩ :=
        run_openAndLaunch_apart hne hnulOut hout hnulErr herr program argv
      exact ⟨held, some first, some second, owned, hrun⟩

end Act

/-- A program can be launched if no NUL is in its words and the system lets it start. -/
def Conduct.launches (conduct : Conduct) (words : List String) : Bool :=
  !words.any Disk.hasNul && match conduct with
    | .unstarted _ => false
    | .started .. => true

/-- The end of a process that is started. -/
def Conduct.answer : Conduct → Answer
  | .unstarted _ => .running
  | .started _ ending => ending.answer

/-- A process that was started has written nothing yet. -/
structure Actor.IsFresh {conduct : Conduct} (actor : Actor conduct) : Prop where
  conduct : conduct = .started actor.left actor.ending

theorem Actor.IsFresh.answer {conduct : Conduct} {actor : Actor conduct} (hfresh : actor.IsFresh) :
    actor.ending.answer = conduct.answer :=
  (congrArg Conduct.answer hfresh.conduct).symm

/-- A program has been started, with a handle, a process and open files. -/
structure Machine.Runs {conduct : Conduct} (started m : Machine (Actor conduct)) (d' : Disk)
    (program : String) (actor : Actor conduct) : Prop where
  disk : started.disk = d'
  programs : started.programs = m.programs ++ [actor]
  fresh : actor.IsFresh
  handle : ∃ handle, started.Watches m.handles.length m.programs.length handle ∧
    handle.program = program

namespace Act

section

variable {conduct : Conduct} {m : Machine (Actor conduct)} {out err : Sink} {d' : Disk}
  {program : String} {arguments : List String}

/-- A program that can be launched is started on the files that were opened for it. -/
theorem run_start_of_openAndLaunch {held owned : List Nat} {outFile errFile : Option Nat}
    (hrun : (openAndLaunch program arguments out err).run m =
      (launch program arguments outFile errFile owned).run { m with disk := d', held })
    (hlaunches : conduct.launches (program :: arguments) = true) :
    ∃ started actor, (start program arguments out err).run m =
      (.ok (some m.handles.length), started) ∧ started.Runs m d' program actor ∧
        actor.out = outFile ∧ actor.err = errFile := by
  obtain ⟨hnul, hstarts⟩ := Bool.and_eq_true_iff.mp hlaunches
  rw [Bool.not_eq_true'] at hnul
  cases conduct with
  | unstarted code => cases hstarts
  | started writes ending =>
      have hlaunch : (launch program arguments outFile errFile owned).run
          { m with disk := d', held } = (.ok m.handles.length, { m with
            disk := d'
            held
            programs := m.programs ++ [{ out := outFile, err := errFile, left := writes, ending }]
            handles := m.handles ++
              [{ program, source := .program m.programs.length, owned }] }) := by
        unfold launch
        rw [hnul, if_neg Bool.false_ne_true]
        rfl
      unfold start
      rw [run_bind, run_get]
      dsimp only
      rw [run_tryCatch, run_map, hrun, hlaunch]
      refine ⟨_, _, rfl, ⟨rfl, rfl, ⟨rfl⟩, ?_⟩, rfl, rfl⟩
      exact ⟨_, ⟨List.getElem?_concat_length, rfl, rfl⟩, rfl⟩

variable (hreadies : m.disk.Readies out err d')

include hreadies

theorem run_start_of_launches (hlaunches : conduct.launches (program :: arguments) = true) :
    ∃ started actor, (start program arguments out err).run m =
      (.ok (some m.handles.length), started) ∧ started.Runs m d' program actor := by
  obtain ⟨held, outFile, errFile, owned, hrun⟩ := run_openAndLaunch hreadies program arguments
  obtain ⟨started, actor, hstart, hruns, -, -⟩ := run_start_of_openAndLaunch hrun hlaunches
  exact ⟨started, actor, hstart, hruns⟩

theorem run_start_of_not_launches (hlaunches : conduct.launches (program :: arguments) = false) :
    ∃ started, (start program arguments out err).run m = (.ok none, started) ∧
      started.disk = d' := by
  obtain ⟨held, outFile, errFile, owned, hrun⟩ := run_openAndLaunch hreadies program arguments
  have hlaunch : ∃ failure : Failure, failure.IsRefusal ∧
      (launch program arguments outFile errFile owned).run { m with disk := d', held } =
        (.error failure, { m with disk := d', held }) := by
    unfold launch
    cases hnul : (program :: arguments).any Disk.hasNul with
    | true => exact ⟨.nullByte, isRefusal_nullByte, rfl⟩
    | false =>
        cases conduct with
        | unstarted code => exact ⟨_, isRefusal_system code (some program) none, rfl⟩
        | started writes ending => simp [Conduct.launches, hnul] at hlaunches
  obtain ⟨failure, hrefusal, hlaunch⟩ := hlaunch
  obtain ⟨line, htold⟩ := @exists_run_remark_on (Actor conduct) "cannot start " (by decide)
    (by decide) program _ hrefusal.shown { m with disk := d' }
  have hprevents := hrefusal.prevents
  rw [Failure.PreventsStart] at hprevents
  unfold start
  rw [run_bind, run_get]
  dsimp only
  rw [run_tryCatch, run_map, hrun, hlaunch]
  dsimp only
  rw [if_pos hprevents, run_bind, run_modify]
  dsimp only
  rw [run_bind, htold]
  exact ⟨_, rfl, rfl⟩

end

/-! ## Waiting -/

/-- The warning of a blocking run within a task is always shown. -/
theorem exists_run_warnBlocking (program : String) (m : Machine κ) :
    ∃ line, (warnBlocking program).run m = (.ok (), { m with err := m.err ++ line }) := by
  let rest := " inside a cooperative task; use executev_async to keep other tasks running"
  have hstart : "[yellow]buildos: blocking wait for ".toList =
      '[' :: "yellow".toList ++ ']' :: "buildos: blocking wait for ".toList := by decide
  have hend : (rest ++ "[/yellow]").toList =
      rest.toList ++ ('[' :: '/' :: "yellow".toList ++ [']']) := by decide
  have hbehind : Follows [canonicalStyle "yellow".toList]
      (rest.toList ++ ('[' :: '/' :: "yellow".toList ++ [']'])) :=
    .words (by decide) (by decide) (by decide) (showable_closed (by decide) 0)
  have hparts : ("[yellow]buildos: blocking wait for " ++ escape program ++
      (rest ++ "[/yellow]")).toList = '[' :: "yellow".toList ++ ']' ::
        ("buildos: blocking wait for ".toList ++ ((escape program).toList ++
          (rest.toList ++ ('[' :: '/' :: "yellow".toList ++ [']'])))) := by
    rw [String.toList_append, String.toList_append, hstart, hend, List.append_assoc]
    rfl
  have hshows : Shows [] 0 ("[yellow]buildos: blocking wait for " ++ escape program ++
      (rest ++ "[/yellow]")).toList := by
    rw [hparts]
    apply Shows.opened (by decide)
    exact (hbehind.value program).unmarked (by decide) (by decide) 0
  obtain ⟨told, hplain⟩ := exists_plain hshows
  exact ⟨_, run_printErr hplain m⟩

/-- What is made of an answer depends on nothing else than the name of the program. -/
theorem exists_settled (program : String) (answer : Answer) :
    ∃ settled : Except Failure WaitResult,
      (settled.toOption.getD .unusable).exitCode = answer.exitCode ∧
      (answer.IsShown → ∃ result, settled = .ok result) ∧
      ∀ {m : Machine κ} {id index : Nat} {handle : Handle}, m.Watches id index handle →
        handle.program = program →
          ∃ line, (settle id handle answer).run m = (settled, { m with err := m.err ++ line }) := by
  have hsame : ∀ m : Machine κ, m = { m with err := m.err ++ "" } := by simp
  -- the guard remarks on a failure of the wait
  have hguard : ∀ failure : Failure, ∃ settled : Except Failure WaitResult,
      (settled.toOption.getD .unusable).exitCode = failureCode ∧
      (CanTell program failure.message → ∃ result, settled = .ok result) ∧
      ∀ {m : Machine κ} {id index : Nat} {handle : Handle}, m.Watches id index handle →
        handle.program = program →
          ∃ line, (do
            remarkWaitFailed (← handleAt id).program failure.message
            pure WaitResult.unusable : Act κ WaitResult).run m =
              (settled, { m with err := m.err ++ line }) := by
    intro failure
    obtain ⟨told, htell, hrun⟩ := @exists_remarkWaitFailed κ program failure.message
    refine ⟨told.map fun _ => .unusable, ?_, fun hcan => ?_, ?_⟩
    · cases told with
      | _ => rfl
    · rw [htell hcan]
      exact ⟨_, rfl⟩
    · intro m id index handle hwatches hp
      obtain ⟨line, hremark⟩ := hrun m
      refine ⟨line, ?_⟩
      rw [run_bind, run_handleAt, hwatches.found, Option.getD_some]
      dsimp only
      rw [hp, run_bind, hremark]
      cases told with
      | _ => rfl
  cases answer with
  | exited code =>
      refine ⟨.ok (.ofCode code), WaitResult.exitCode_ofCode code, fun _ => ⟨_, rfl⟩, ?_⟩
      intro m id index handle hwatches _
      exact ⟨"", (run_settle_exited hwatches code).trans (congrArg _ (hsame m))⟩
  | running =>
      refine ⟨.ok ⟨.pending, none⟩, rfl, fun _ => ⟨_, rfl⟩, ?_⟩
      intro m id index handle hwatches _
      exact ⟨"", (run_settle_running hwatches).trans (congrArg _ (hsame m))⟩
  | broken text =>
      obtain ⟨settled, hcode, hshown, hrun⟩ := hguard (.waitBroken text)
      refine ⟨settled, hcode, fun hfree => hshown (canTell_of_not_closes program hfree), ?_⟩
      intro m id index handle hwatches hp
      obtain ⟨line, hguarded⟩ := hrun hwatches hp
      refine ⟨line, ?_⟩
      rw [settle, run_tryCatch, run_takeAnswer hwatches]
      exact hguarded
  | refused text =>
      obtain ⟨told, htell, hrun⟩ := @exists_remarkWaitFailed κ program text
      cases told with
      | ok told =>
          refine ⟨.ok .unusable, rfl, fun _ => ⟨_, rfl⟩, ?_⟩
          intro m id index handle hwatches hp
          obtain ⟨line, hremark⟩ := hrun m
          refine ⟨line, ?_⟩
          rw [settle, run_tryCatch, run_takeAnswer hwatches]
          dsimp only
          rw [hp, run_bind, hremark]
          rfl
      | error failure =>
          obtain ⟨settled, hcode, -, hguarded⟩ := hguard failure
          refine ⟨settled, hcode, fun hfree => ?_, ?_⟩
          · cases htell (canTell_of_not_closes program hfree)
          · intro m id index handle hwatches hp
            obtain ⟨first, hremark⟩ := hrun m
            obtain ⟨second, hguarded⟩ := @hguarded { m with err := m.err ++ first } id index handle
              ⟨hwatches.found, hwatches.source, hwatches.isOpen⟩ hp
            refine ⟨first ++ second, ?_⟩
            rw [settle, run_tryCatch, run_takeAnswer hwatches]
            dsimp only
            rw [hp, run_bind, hremark]
            dsimp only
            rw [hguarded, ← String.append_assoc]

/-! ## Runs of a conduct -/

section

variable {conduct : Conduct} {m : Machine (Actor conduct)} {call : Call} {d' : Disk}
  {places : String → Location}

/-- What was captured is told with the exit code. -/
theorem resultOf_collected {m : Machine κ} (hat : m.disk.AreAt call.capture.paths places)
    (code : Int) :
    resultOf (ensuring (collect call code) (cleanUp call)) m =
      .ok (call.wanted.result code (call.capture.texts m.disk places).1
        (call.capture.texts m.disk places).2) := by
  rw [resultOf, run_ensuring, resultOf, stateAfter, run_collect hat code]
  dsimp only
  rw [run_cleanUp]

/-- A run whose process has been started is concluded when the process has ended, with what is made
of its answer and what its files hold by then. -/
theorem resultOf_block_of_runs {started : Machine (Actor conduct)} {actor : Actor conduct}
    {settled : Except Failure WaitResult}
    (hsettled : ∀ {m : Machine (Actor conduct)} {id index : Nat} {handle : Handle},
      m.Watches id index handle → handle.program = call.program →
        ∃ line, (settle id handle conduct.answer).run m =
          (settled, { m with err := m.err ++ line }))
    (hstart : (starting call).run m = (.ok (some m.handles.length), started))
    (hruns : started.Runs m d' call.program actor) (hat : d'.AreAt call.capture.paths places) :
    ∃ (now : Machine (Actor conduct)) (ticks : Nat), now.disk = d' ∧
      now.programs = m.programs ++ [actor] ∧
      (now.elapse ticks).answerOf m.programs.length = actor.ending.answer ∧
      resultOf (block call) m = settled.map fun result =>
        call.wanted.result result.exitCode (call.capture.texts (now.elapse ticks).disk places).1
          (call.capture.texts (now.elapse ticks).disk places).2 := by
  obtain ⟨hdisk, hprograms, hfresh, handle, hwatches, hprogram⟩ := hruns
  -- within a task the wait is preceded by a warning
  obtain ⟨told, hwarn⟩ : ∃ told, if started.inTask then
      (warnBlocking call.program).run started = (.ok (), { started with err := told })
      else { started with err := told } = started := by
    by_cases hinside : started.inTask = true
    · obtain ⟨line, hshown⟩ := exists_run_warnBlocking call.program started
      exact ⟨started.err ++ line, by rw [if_pos hinside, hshown]⟩
    · exact ⟨started.err, by rw [if_neg hinside]⟩
  have hwatched : ({ started with err := told } : Machine (Actor conduct)).Watches
      m.handles.length m.programs.length handle :=
    ⟨hwatches.found, hwatches.source, hwatches.isOpen⟩
  have hactor : started.programs[m.programs.length]? = some actor := by
    rw [hprograms]
    exact List.getElem?_concat_length
  obtain ⟨ticks, hend, hanswer⟩ :=
    Machine.exists_awaitEnd { started with err := told } hactor
  have hspawns := Machine.spawns_elapse ticks { started with err := told }
  have hlast := hwatched.of_handles (Machine.handles_elapse ticks { started with err := told })
  have hblock := run_block_of_warned hstart hwarn hwatched hend
  refine ⟨{ started with err := told }, ticks, hdisk, hprograms, hanswer, ?_⟩
  generalize ({ started with err := told } : Machine (Actor conduct)).elapse ticks = ended at *
  rw [hanswer, hfresh.answer] at hblock
  obtain ⟨remark, hsettle⟩ := hsettled hlast hprogram
  obtain ⟨closed, hclose, hsame⟩ : ∃ closed, (close m.handles.length).run
      { ended with err := ended.err ++ remark } = (.ok (), closed) ∧ closed.disk = ended.disk :=
    ⟨_, run_close_of_open hlast.found hlast.isOpen, rfl⟩
  have hplaces : closed.disk.AreAt call.capture.paths places := by
    rw [hsame]
    refine Disk.AreAt.of_opens ?_ hspawns.disk
    rw [show ({ started with err := told } : Machine (Actor conduct)).disk = d' from hdisk]
    exact hat
  rw [resultOf, hblock, run_conclude hsettle hclose]
  cases settled with
  | error failure => rfl
  | ok result =>
      rw [← hsame]
      exact resultOf_collected hplaces result.exitCode

/-- A run whose process is started is concluded with what is made of its answer. -/
theorem resultOf_block_of_launches {arguments : List String}
    {settled : Except Failure WaitResult}
    (hsettled : ∀ {m : Machine (Actor conduct)} {id index : Nat} {handle : Handle},
      m.Watches id index handle → handle.program = call.program →
        ∃ line, (settle id handle conduct.answer).run m =
          (settled, { m with err := m.err ++ line }))
    (hexpanded : m.disk.expanded call.argv = .ok arguments)
    (hlaunches : conduct.launches (call.program :: arguments) = true)
    (hreadies : m.disk.Readies call.out call.err d') (hat : d'.AreAt call.capture.paths places) :
    ∃ first second, resultOf (block call) m =
      settled.map fun result => call.wanted.result result.exitCode first second := by
  obtain ⟨line, hrun⟩ := run_startTraced call.program call.argv call.out call.err m
  obtain ⟨started, actor, hstart, hruns⟩ :=
    run_start_of_launches (m := { m with err := m.err ++ line }) hreadies hlaunches
  rw [hexpanded] at hrun
  obtain ⟨_, _, -, -, -, hresult⟩ := resultOf_block_of_runs hsettled (hrun.trans hstart)
    ⟨hruns.disk, hruns.programs, hruns.fresh, hruns.handle⟩ hat
  exact ⟨_, _, hresult⟩

/-- A run whose process is not started has the exit code of a failure. -/
theorem resultOf_block_of_not_launches {arguments : List String}
    (hexpanded : m.disk.expanded call.argv = .ok arguments)
    (hlaunches : conduct.launches (call.program :: arguments) = false)
    (hreadies : m.disk.Readies call.out call.err d') (hat : d'.AreAt call.capture.paths places) :
    ∃ first second, resultOf (block call) m =
      .ok (call.wanted.result failureCode first second) := by
  obtain ⟨line, hrun⟩ := run_startTraced call.program call.argv call.out call.err m
  obtain ⟨started, hstart, hdisk⟩ :=
    run_start_of_not_launches (m := { m with err := m.err ++ line }) hreadies hlaunches
  rw [hexpanded] at hrun
  have hplaces : started.disk.AreAt call.capture.paths places := by
    rw [hdisk]
    exact hat
  rw [resultOf, run_block_of_unstarted (hrun.trans hstart)]
  exact ⟨_, _, resultOf_collected hplaces failureCode⟩

end

end Act

/-- A process has one exit code, or one failure, that every run of it tells.  The code is the one
that the process ends with, or that of a failure if it is not started. -/
theorem exists_exit (conduct : Conduct) (d : Disk) (program : String) (argv : List String) :
    ∃ exit : Except Failure Int,
      (conduct.answer.IsShown → ∀ arguments, d.expanded argv = .ok arguments →
        exit = .ok (if conduct.launches (program :: arguments) then conduct.answer.exitCode
          else failureCode)) ∧
      ∀ {m : Machine (Actor conduct)} {call : Call} {d' : Disk} {places : String → Location},
        m.disk = d → call.program = program → call.argv = argv →
          d.Readies call.out call.err d' → d'.AreAt call.capture.paths places →
            ∃ first second, resultOf (Act.block call) m =
              exit.map fun code => call.wanted.result code first second := by
  cases hexpanded : d.expanded argv with
  | error failure =>
      refine ⟨.error failure, ?_, ?_⟩
      · rintro - arguments ⟨⟩
      · rintro m call d' places rfl rfl rfl - -
        obtain ⟨line, hrun⟩ := Act.run_startTraced call.program call.argv call.out call.err m
        rw [hexpanded] at hrun
        refine ⟨"", "", ?_⟩
        rw [resultOf, Act.run_block_of_failed hrun]
        rfl
  | ok arguments =>
      cases hlaunches : conduct.launches (program :: arguments) with
      | false =>
          refine ⟨.ok failureCode, ?_, ?_⟩
          · rintro - _ ⟨⟩
            rw [hlaunches, if_neg Bool.false_ne_true]
          · rintro m call d' places rfl rfl rfl hreadies hat
            exact Act.resultOf_block_of_not_launches hexpanded hlaunches hreadies hat
      | true =>
          obtain ⟨settled, hcode, hshown, hsettled⟩ :=
            @Act.exists_settled (Actor conduct) program conduct.answer
          refine ⟨settled.map WaitResult.exitCode, ?_, ?_⟩
          · rintro hfree _ ⟨⟩
            obtain ⟨result, rfl⟩ := hshown hfree
            rw [hlaunches, if_pos rfl]
            exact congrArg Except.ok hcode
          · rintro m call d' places rfl rfl rfl hreadies hat
            obtain ⟨first, second, hresult⟩ :=
              Act.resultOf_block_of_launches hsettled hexpanded hlaunches hreadies hat
            refine ⟨first, second, ?_⟩
            rw [hresult]
            cases settled with
            | _ => rfl

end BuildRunner
