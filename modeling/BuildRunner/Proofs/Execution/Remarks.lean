import BuildRunner.Proofs.Console.Lines
import BuildRunner.Proofs.Execution.Blocking

/-!
# What runs write

A run writes nothing to the console.  On the error output it makes remarks: what it matches and what
it starts where the environment asks for a trace of that, a warning when it blocks within a task, and
what is wrong when its program cannot be started or waited for.  So without a trace, and outside of
tasks, a run whose program ends with an exit code writes nothing at all.
-/

namespace BuildRunner

variable {κ α : Type}

/-- Only remarks have been made.  Where no trace is asked for, there are none unless there may be
others. -/
structure Remarks (others : Prop) (m m' : Machine κ) : Prop where
  environment : m'.environment = m.environment
  out : m'.out = m.out
  err : ∃ remarks, m'.err = m.err ++ remarks
  silent : asksForTrace m.environment = false → ¬others → m'.err = m.err

namespace Remarks

variable {others : Prop} {m m' : Machine κ}

theorem of_same (henvironment : m'.environment = m.environment) (hout : m'.out = m.out)
    (herr : m'.err = m.err) : Remarks others m m' :=
  ⟨henvironment, hout, ⟨"", by rw [herr, String.append_empty]⟩, fun _ _ => herr⟩

theorem mono {more : Prop} (hremarks : Remarks others m m') (hmore : others → more) :
    Remarks more m m' :=
  ⟨hremarks.environment, hremarks.out, hremarks.err,
    fun htrace hnone => hremarks.silent htrace fun h => hnone (hmore h)⟩

theorem exists_err (hremarks : Remarks others m m') : ∃ remarks, m'.err = m.err ++ remarks ∧
    (asksForTrace m.environment = false → ¬others → remarks = "") := by
  by_cases hsilent : asksForTrace m.environment = false ∧ ¬others
  · refine ⟨"", ?_, fun _ _ => rfl⟩
    rw [String.append_empty, hremarks.silent hsilent.1 hsilent.2]
  · obtain ⟨remarks, herr⟩ := hremarks.err
    exact ⟨remarks, herr, fun htrace hnone => absurd ⟨htrace, hnone⟩ hsilent⟩

/-- Where a trace is asked for, there may be remarks in any case. -/
theorem of_traced (hremarks : Remarks True m m') (htrace : asksForTrace m.environment = true) :
    Remarks others m m' :=
  ⟨hremarks.environment, hremarks.out, hremarks.err,
    fun hnone => absurd (htrace.symm.trans hnone) (by decide)⟩

end Remarks

theorem isFrame_remarks (others : Prop) :
    IsFrame (Remarks others : Machine κ → Machine κ → Prop) where
  refl _ := .of_same rfl rfl rfl
  trans h h' := by
    obtain ⟨first, hfirst⟩ := h.err
    obtain ⟨second, hsecond⟩ := h'.err
    refine ⟨h'.environment.trans h.environment, h'.out.trans h.out,
      ⟨first ++ second, by rw [hsecond, hfirst, String.append_assoc]⟩, fun htrace hnone => ?_⟩
    rw [h'.silent (by rw [h.environment, htrace]) hnone, h.silent htrace hnone]

namespace Act

/-! ## Steps that write nothing -/

section

variable {others : Prop}

theorem remarks_modify {f : Machine κ → Machine κ} (hf : ∀ m, Remarks others m (f m)) :
    Respects (Remarks others) (modify f : Act κ PUnit) := hf

theorem remarks_onDisk (action : DiskM α) :
    Respects (Remarks others) (onDisk action : Act κ α) := by
  intro m
  rw [stateAfter, run_onDisk]
  exact .of_same rfl rfl rfl

theorem remarks_settings : Respects (Remarks others) (settings : Act κ Settings) := by
  intro m
  rw [stateAfter, run_settings]
  exact (isFrame_remarks others).refl m

theorem remarks_handleAt (id : Nat) : Respects (Remarks others) (handleAt id : Act κ Handle) :=
  fun m => (isFrame_remarks others).refl m

theorem remarks_setHandle (id : Nat) (handle : Handle) :
    Respects (Remarks others) (setHandle id handle : Act κ Unit) := fun _ => .of_same rfl rfl rfl

theorem remarks_scratchPath : Respects (Remarks others) (scratchPath : Act κ String) := by
  have hR := isFrame_remarks (κ := κ) others
  refine respects_bind hR ?_ fun directory => ?_
  · exact respects_bind hR remarks_settings fun _ => respects_bind hR (remarks_onDisk _) fun _ =>
      respects_pure hR _
  · exact respects_bind hR (respects_get hR) fun _ =>
      respects_bind hR (remarks_modify fun _ => .of_same rfl rfl rfl) fun _ => respects_pure hR _

theorem remarks_prepare (job : Job) :
    Respects (Remarks others) (prepare job : Act κ (JobResult ⊕ Call)) := by
  have hR := isFrame_remarks (κ := κ) others
  unfold prepare
  split
  · split
    · exact respects_pure hR _
    · exact respects_pure hR _
  · refine respects_bind hR ?_ fun capture => ?_
    · unfold prepareCapture
      split
      · exact respects_pure hR _
      · exact respects_bind hR remarks_scratchPath fun _ => respects_pure hR _
      · exact respects_bind hR remarks_scratchPath fun _ => respects_pure hR _
      · exact respects_bind hR remarks_scratchPath fun _ =>
          respects_bind hR remarks_scratchPath fun _ => respects_pure hR _
    · cases capture with
      | _ => exact respects_pure hR _

theorem remarks_collect (call : Call) (code : Int) :
    Respects (Remarks others) (collect call code : Act κ JobResult) := by
  have hR := isFrame_remarks (κ := κ) others
  have hread : ∀ path, Respects (Remarks others) (readText path : Act κ String) := by
    intro path
    refine respects_bind hR (respects_get hR) fun m => ?_
    split
    · exact respects_pure hR _
    · exact respects_pure hR _
    · exact respects_throw hR _
  unfold collect
  split
  · exact respects_pure hR _
  · exact respects_bind hR (hread _) fun _ => respects_pure hR _
  · exact respects_bind hR (hread _) fun _ => respects_bind hR (hread _) fun _ => respects_pure hR _

theorem remarks_cleanUp (call : Call) :
    Respects (Remarks others) (cleanUp call : Act κ Unit) := by
  intro m
  rw [stateAfter, run_cleanUp]
  exact .of_same rfl rfl rfl

theorem remarks_close (id : Nat) : Respects (Remarks others) (close id : Act κ Unit) := by
  have hR := isFrame_remarks (κ := κ) others
  refine respects_bind hR (remarks_modify fun _ => .of_same rfl rfl rfl) fun _ => ?_
  refine respects_bind hR (remarks_handleAt id) fun handle => ?_
  split
  · exact respects_throw hR _
  · exact respects_bind hR (remarks_setHandle _ _) fun _ =>
      remarks_modify fun _ => .of_same rfl rfl rfl

theorem remarks_openOutput (sink : Sink) :
    Respects (Remarks others) (openOutput sink : Act κ (Option Nat)) := by
  have hR := isFrame_remarks (κ := κ) others
  cases sink with
  | inherit => exact respects_pure hR _
  | file index => exact respects_pure hR _
  | path path =>
      intro m
      rcases openOutput_path path m with ⟨failure, -, hrun⟩ | ⟨disk, -, hrun⟩
      · rw [stateAfter_of_run hrun]
        exact hR.refl m
      · rw [stateAfter_of_run hrun]
        exact .of_same rfl rfl rfl

/-! ## Remarks -/

theorem remarks_printErr (hothers : others) (markup : String) :
    Respects (Remarks others) (printErr markup : Act κ Unit) := by
  have hR := isFrame_remarks (κ := κ) others
  refine respects_bind hR ?_ fun line m =>
    ⟨rfl, rfl, ⟨line, rfl⟩, fun _ hnone => absurd hothers hnone⟩
  unfold shownLine
  split
  · exact respects_pure hR _
  · exact respects_throw hR _

theorem remarks_remark (hothers : others) (markup : String) :
    Respects (Remarks others) (remark markup : Act κ Unit) := remarks_printErr hothers _

/-- An action that is announced is taken as it is, behind the remark if a trace is asked for. -/
theorem exists_run_announced (others : Prop) (markup : String) (action : Act κ α)
    (m : Machine κ) :
    ∃ told, Remarks others m told ∧
      ((do
          if ← verbose then remark markup
          action : Act κ α).run m = action.run told ∨
        ∃ failure, (do
          if ← verbose then remark markup
          action : Act κ α).run m = (.error failure, told)) := by
  rw [run_bind, run_verbose]
  dsimp only
  cases htrace : asksForTrace m.environment with
  | false => exact ⟨m, (isFrame_remarks others).refl m, Or.inl rfl⟩
  | true =>
      have htold : Remarks others m (stateAfter (remark markup) m) :=
        (remarks_remark trivial markup m).of_traced htrace
      rw [stateAfter] at htold
      rw [if_pos rfl, run_bind]
      rcases hremark : (remark markup : Act κ Unit).run m with ⟨failure | _, told⟩
      · rw [hremark] at htold
        exact ⟨told, htold, Or.inr ⟨failure, rfl⟩⟩
      · rw [hremark] at htold
        exact ⟨told, htold, Or.inl rfl⟩

theorem remarks_announced (markup : String) {action : Act κ α}
    (haction : Respects (Remarks others) action) :
    Respects (Remarks others) (do
      if ← verbose then remark markup
      action) := by
  intro m
  obtain ⟨told, htold, hrun | ⟨failure, hrun⟩⟩ := exists_run_announced others markup action m
  · rw [stateAfter, hrun]
    exact (isFrame_remarks others).trans htold (haction told)
  · rw [stateAfter, hrun]
    exact htold

theorem remarks_matchPaths (pattern : String) (mode : Glob.Mode) :
    Respects (Remarks others) (matchPaths pattern mode : Act κ (List String)) := by
  have hR := isFrame_remarks (κ := κ) others
  unfold matchPaths
  split
  · exact respects_pure hR _
  · refine respects_bind hR (respects_get hR) fun m => ?_
    split
    · exact respects_throw hR _
    · exact remarks_announced _ (respects_pure hR _)

theorem remarks_expandArguments (arguments : List String) :
    Respects (Remarks others) (expandArguments arguments : Act κ (List String)) := by
  have hR := isFrame_remarks (κ := κ) others
  induction arguments with
  | nil => exact respects_pure hR _
  | cons argument arguments ih =>
      have hfirst : Respects (Remarks others) (expandArgument argument : Act κ (List String)) := by
        unfold expandArgument
        split
        · exact respects_bind hR (remarks_matchPaths _ _) fun _ => respects_pure hR _
        · exact respects_pure hR _
      exact respects_bind hR hfirst fun _ => respects_bind hR ih fun _ => respects_pure hR _

end

/-! ## Starting and waiting -/

variable [Program κ] {others : Prop}

theorem remarks_launch (program : String) (argv : List String) (out err : Option Nat)
    (owned : List Nat) :
    Respects (Remarks others) (launch program argv out err owned : Act κ Nat) := by
  intro m
  unfold launch
  split
  · exact .of_same rfl rfl rfl
  · rw [stateAfter, run_bind, run_get]
    dsimp only
    cases (Program.load m.disk m.environment (program :: argv) out err :
        Except Errno (Disk × κ)) with
    | error code => exact .of_same rfl rfl rfl
    | ok loaded => exact .of_same rfl rfl rfl

theorem remarks_openAndLaunch (program : String) (argv : List String) (out err : Sink) :
    Respects (Remarks others) (openAndLaunch program argv out err : Act κ Nat) := by
  have hR := isFrame_remarks (κ := κ) others
  have hlaunch : ∀ (before : Machine κ) (outFile errFile : Option Nat),
      Respects (Remarks others) ((do
        let now ← get
        launch program argv outFile errFile (now.held.drop before.held.length) : Act κ Nat)) :=
    fun before outFile errFile =>
      respects_bind hR (respects_get hR) fun _ => remarks_launch _ _ _ _ _
  refine respects_bind hR (respects_get hR) fun before => ?_
  refine respects_bind hR (remarks_openOutput out) fun outFile => ?_
  cases err with
  | path path =>
      dsimp only
      split
      · exact respects_bind hR (respects_pure hR _) fun _ => hlaunch before _ _
      · exact respects_bind hR (remarks_openOutput _) fun _ => hlaunch before _ _
  | _ => exact respects_bind hR (remarks_openOutput _) fun _ => hlaunch before _ _

theorem remarks_start (program : String) (argv : List String) (out err : Sink) :
    Respects (Remarks True) (start program argv out err : Act κ (Option Nat)) := by
  have hR := isFrame_remarks (κ := κ) True
  refine respects_bind hR (respects_get hR) fun before => ?_
  refine respects_tryCatch hR (respects_map (remarks_openAndLaunch _ _ _ _) _) fun failure => ?_
  split
  · exact respects_bind hR (remarks_modify fun _ => .of_same rfl rfl rfl) fun _ =>
      respects_bind hR (remarks_remark trivial _) fun _ => respects_pure hR _
  · exact respects_throw hR _

theorem remarks_startTraced (program : String) (argv : List String) (out err : Sink) :
    Respects (Remarks True) (startTraced program argv out err : Act κ (Option Nat)) := by
  have hR := isFrame_remarks (κ := κ) True
  exact respects_bind hR (remarks_expandArguments argv) fun _ =>
    remarks_announced _ (remarks_start _ _ _ _)

/-- Where a program is started, there is nothing else to remark on. -/
theorem remarks_of_started {program : String} {argv : List String} {out err : Sink}
    {m m' : Machine κ} {id : Nat}
    (hrun : (startTraced program argv out err : Act κ (Option Nat)).run m = (.ok (some id), m')) :
    Remarks others m m' := by
  have hR := isFrame_remarks (κ := κ) others
  obtain ⟨arguments, m₁, hexpand, hrun⟩ := run_bind_eq_ok hrun
  have hexpanded : Remarks others m m₁ := (remarks_expandArguments argv).of_run hexpand
  obtain ⟨told, htold, hgoes | ⟨failure, hfails⟩⟩ := exists_run_announced others
    ("exec " ++ Console.escape (Command.join (program :: arguments)))
    (start program arguments out err : Act κ (Option Nat)) m₁
  · have hopen := run_openAndLaunch_of_start (hgoes.symm.trans hrun)
    exact hR.trans (hR.trans hexpanded htold) ((remarks_openAndLaunch _ _ _ _).of_run hopen)
  · cases hfails.symm.trans hrun

theorem remarks_elapse (ticks : Nat) (m : Machine κ) : Remarks others m (m.elapse ticks) := by
  obtain ⟨disk, programs, helapse⟩ := m.elapse_eq ticks
  rw [helapse]
  exact .of_same rfl rfl rfl

theorem remarks_awaitEnd {m ended : Machine κ} {index : Nat} (hend : m.awaitEnd index = some ended) :
    Remarks others m ended := by
  obtain ⟨last, rfl, -⟩ := Machine.exists_elapse_of_awaitEnd hend
  exact remarks_elapse last m

theorem remarks_guardedWait (id : Nat) :
    Respects (Remarks True) (guardedWait id .forever : Act κ WaitResult) := by
  have hR := isFrame_remarks (κ := κ) True
  have htake : ∀ handle now,
      Respects (Remarks True) (takeAnswer id handle now : Act κ WaitResult) := by
    intro handle now
    unfold takeAnswer
    refine respects_bind hR (remarks_setHandle _ _) fun _ => ?_
    split
    · exact respects_pure hR _
    · exact respects_pure hR _
    · exact respects_bind hR (remarks_remark trivial _) fun _ => respects_pure hR _
    · exact respects_throw hR _
  have hwait : ∀ index, Respects (Remarks True) (waitOnMachine index .forever : Act κ Unit) := by
    intro index
    refine remarks_modify fun m => ?_
    cases hend : m.awaitEnd index with
    | none => exact hR.refl m
    | some ended => exact remarks_awaitEnd hend
  refine respects_tryCatch hR ?_ fun failure => ?_
  · refine respects_bind hR (remarks_handleAt id) fun handle => ?_
    dsimp only
    split
    · exact respects_throw hR _
    · split
      · exact respects_bind hR (hwait _) fun _ => respects_bind hR (respects_get hR) fun _ =>
          htake _ _
      · exact htake _ _
  · exact respects_bind hR (remarks_handleAt id) fun handle =>
      respects_bind hR (remarks_remark trivial _) fun _ => respects_pure hR _

/-! ## Runs -/

theorem remarks_runToEnd (program : String) (argv : List String) (out err : Sink) :
    Respects (Remarks True) (runToEnd program argv out err : Act κ Int) := by
  have hR := isFrame_remarks (κ := κ) True
  refine respects_bind hR (remarks_startTraced _ _ _ _) fun handle => ?_
  cases handle with
  | none => exact respects_pure hR _
  | some id =>
      have hwait : Respects (Remarks True) (do
          if (← get).inTask then warnBlocking program
          guardedWait id .forever : Act κ WaitResult) := by
        refine respects_bind hR (respects_get hR) fun m => ?_
        split
        · exact respects_bind hR (remarks_printErr trivial _) fun _ => remarks_guardedWait id
        · exact remarks_guardedWait id
      exact respects_bind hR (respects_ensuring hR hwait (remarks_close id)) fun _ =>
        respects_pure hR _

/-- A run only makes remarks. -/
theorem remarks_runBlocking (job : Job) :
    Respects (Remarks True) (runBlocking job : Act κ JobResult) := by
  have hR := isFrame_remarks (κ := κ) True
  refine respects_bind hR (remarks_prepare job) fun prepared => ?_
  cases prepared with
  | inl result => exact respects_pure hR _
  | inr call =>
      refine respects_ensuring hR ?_ (remarks_cleanUp call)
      exact respects_bind hR (remarks_runToEnd _ _ _ _) fun _ => remarks_collect _ _

end Act

/-- The job is a line that is no command, or its program is started and ends with an exit code. -/
inductive Job.Completes [Program κ] (job : Job) (m : Machine κ) : Prop
  | invalid (hwords : job.target.words? = none)
  | exited {call : Call} {id : Nat} {code : Int} {prepared started ended : Machine κ}
      (hprepare : (Act.prepare job).run m = (.ok (.inr call), prepared))
      (hstart : (Act.starting call).run prepared = (.ok (some id), started))
      (hend : started.awaitEnd m.programs.length = some ended)
      (hanswer : ended.answerOf m.programs.length = .exited code)

/-- Outside of tasks a run that completes makes no other remarks than those that are asked for. -/
theorem Job.Completes.remarks [Program κ] {others : Prop} {job : Job} {m : Machine κ} (hcompletes : job.Completes m)
    (houtside : m.inTask = false) : Remarks others m (stateAfter (Act.runBlocking job) m) := by
  have hR := isFrame_remarks (κ := κ) others
  rw [stateAfter, Act.run_runBlocking]
  cases hcompletes with
  | invalid hwords =>
      obtain ⟨result, hprepare⟩ : ∃ result,
          (Act.prepare job : Act κ (JobResult ⊕ Call)).run m = (.ok (.inl result), m) := by
        unfold Act.prepare
        rw [hwords]
        dsimp only
        split
        · exact ⟨_, rfl⟩
        · exact ⟨_, rfl⟩
      rw [hprepare]
      exact hR.refl m
  | @exited call id code prepared started ended hprepare hstart hend hanswer =>
      have hprograms := ((Act.respects_prepare job).of_run hprepare).programs
      obtain ⟨handle, hwatches, -⟩ :=
        ((Act.hasStarted_startTraced hstart).of_programs hprograms).watches
      have hstarted : started.inTask = false := by
        rw [((Act.timeless_startTraced _ _ _ _).same hstart).2,
          ((Act.timeless_prepare job).same hprepare).2, houtside]
      have hended : Remarks others m ended :=
        hR.trans ((Act.remarks_prepare job).of_run hprepare)
          (hR.trans (Act.remarks_of_started hstart) (Act.remarks_awaitEnd hend))
      have hstill : ended.Watches id m.programs.length handle := by
        obtain ⟨last, rfl, -⟩ := Machine.exists_elapse_of_awaitEnd hend
        exact hwatches.of_handles (started.handles_elapse last)
      obtain ⟨closed, m₁, hclose⟩ : ∃ closed m₁, (Act.close id : Act κ Unit).run ended =
          (closed, m₁) := ⟨_, _, rfl⟩
      have hclosed : Remarks others m m₁ := hR.trans hended ((Act.remarks_close id).of_run hclose)
      rw [hprepare]
      dsimp only
      rw [Act.run_block_of_started hstart hwatches hstarted hend, hanswer,
        Act.run_conclude (Act.run_settle_exited hstill code) hclose]
      cases closed with
      | error failure => exact hR.trans hclosed (.of_same rfl rfl rfl)
      | ok _ =>
          exact hR.trans hclosed
            (Act.respects_ensuring hR (Act.remarks_collect _ _) (Act.remarks_cleanUp _) m₁)

/-- There may be other remarks within tasks, and of a run that does not complete. -/
theorem Act.remarks_of_runBlocking [Program κ] (job : Job) (m : Machine κ) :
    Remarks (¬(job.Completes m ∧ m.inTask = false)) m (stateAfter (runBlocking job) m) := by
  by_cases hquiet : job.Completes m ∧ m.inTask = false
  · exact hquiet.1.remarks hquiet.2
  · exact (remarks_runBlocking job m).mono fun _ => hquiet

end BuildRunner
