import BuildRunner.Proofs.Execution.Ending

/-!
# Timeless actions

What a run does to start its program, to read its output and to clean up depends neither on the time
nor on whether it is part of a task, and changes neither.  So it can be moved in time.
-/

namespace BuildRunner

variable {κ α β : Type}

/-- The machine at another time, in a task or not. -/
def Machine.shifted (clock : Nat) (inTask : Bool) (m : Machine κ) : Machine κ :=
  { m with clock, inTask }

theorem Machine.shifted_self (m : Machine κ) : m.shifted m.clock m.inTask = m := rfl

/-- The action comes to the same at any time, in a task or not. -/
def Timeless (action : Act κ α) : Prop :=
  ∀ clock inTask m, action.run (m.shifted clock inTask) =
    (resultOf action m, (stateAfter action m).shifted clock inTask)

theorem Timeless.run {action : Act κ α} (haction : Timeless action) {m m' : Machine κ}
    {result : Except Failure α} (hrun : action.run m = (result, m')) (clock : Nat) (inTask : Bool) :
    action.run (m.shifted clock inTask) = (result, m'.shifted clock inTask) := by
  rw [haction, resultOf_of_run hrun, stateAfter_of_run hrun]

theorem Timeless.same {action : Act κ α} (haction : Timeless action) {m m' : Machine κ}
    {result : Except Failure α} (hrun : action.run m = (result, m')) :
    m'.clock = m.clock ∧ m'.inTask = m.inTask := by
  have hshifted := haction.run hrun m.clock m.inTask
  rw [Machine.shifted_self, hrun] at hshifted
  have hsame : m' = m'.shifted m.clock m.inTask := congrArg Prod.snd hshifted
  rw [hsame]
  exact ⟨rfl, rfl⟩

namespace Act

/-! ## Composite actions -/

theorem timeless_pure (a : α) : Timeless (pure a : Act κ α) := fun _ _ _ => rfl

theorem timeless_throw (failure : Failure) : Timeless (throw failure : Act κ α) := fun _ _ _ => rfl

theorem timeless_modify {f : Machine κ → Machine κ}
    (hf : ∀ clock inTask m, f (m.shifted clock inTask) = (f m).shifted clock inTask) :
    Timeless (modify f : Act κ PUnit) := by
  intro clock inTask m
  rw [run_modify, hf]
  rfl

theorem timeless_bind {action : Act κ α} {next : α → Act κ β} (haction : Timeless action)
    (hnext : ∀ a, Timeless (next a)) : Timeless (action >>= next) := by
  intro clock inTask m
  rw [resultOf, stateAfter, run_bind, run_bind]
  rcases hrun : action.run m with ⟨failure | a, m'⟩
  · rw [haction.run hrun]
  · rw [haction.run hrun]
    exact hnext a clock inTask m'

theorem timeless_map {action : Act κ α} (haction : Timeless action) (f : α → β) :
    Timeless (f <$> action) := by
  intro clock inTask m
  rw [resultOf, stateAfter, run_map, run_map]
  rcases hrun : action.run m with ⟨failure | a, m'⟩
  · rw [haction.run hrun]
  · rw [haction.run hrun]

theorem timeless_tryCatch {action : Act κ α} {handler : Failure → Act κ α}
    (haction : Timeless action) (hhandler : ∀ failure, Timeless (handler failure)) :
    Timeless (tryCatch action handler) := by
  intro clock inTask m
  rw [resultOf, stateAfter, run_tryCatch, run_tryCatch]
  rcases hrun : action.run m with ⟨failure | a, m'⟩
  · rw [haction.run hrun]
    exact hhandler failure clock inTask m'
  · rw [haction.run hrun]

theorem timeless_ensuring {action : Act κ α} {final : Act κ Unit} (haction : Timeless action)
    (hfinal : Timeless final) : Timeless (ensuring action final) := by
  refine timeless_bind ?_ fun result => timeless_bind hfinal fun _ => ?_
  · exact timeless_tryCatch (timeless_map haction _) fun failure => timeless_pure _
  · cases result with
    | ok a => exact timeless_pure a
    | error failure => exact timeless_throw failure

/-- What is asked of the machine is neither the time nor whether it is in a task. -/
theorem timeless_get_bind {next : Machine κ → Act κ α} (hnext : ∀ m, Timeless (next m))
    (hsame : ∀ clock inTask m, next (m.shifted clock inTask) = next m) :
    Timeless (get >>= next) := by
  intro clock inTask m
  rw [resultOf, stateAfter, run_bind, run_bind, run_get, run_get]
  dsimp only
  rw [hsame]
  exact hnext m clock inTask m

theorem timeless_onDisk (action : DiskM α) : Timeless (onDisk action : Act κ α) := by
  intro clock inTask m
  rw [resultOf, stateAfter, run_onDisk, run_onDisk]
  rfl

/-! ## What is written and asked -/

theorem timeless_remark (markup : String) : Timeless (remark markup : Act κ Unit) := by
  refine timeless_bind ?_ fun line => timeless_modify fun _ _ _ => rfl
  unfold shownLine
  split
  · exact timeless_pure _
  · exact timeless_throw _

theorem timeless_verbose : Timeless (verbose : Act κ Bool) :=
  timeless_get_bind (fun _ => timeless_pure _) fun _ _ _ => rfl

theorem timeless_settings : Timeless (settings : Act κ Settings) := by
  refine timeless_get_bind (fun m => ?_) fun _ _ _ => rfl
  split
  · exact timeless_pure _
  · exact timeless_throw _

/-! ## Starting a program -/

theorem timeless_matchPaths (pattern : String) (mode : Glob.Mode) :
    Timeless (matchPaths pattern mode : Act κ (List String)) := by
  unfold matchPaths
  split
  · exact timeless_pure _
  · refine timeless_get_bind (fun m => ?_) fun _ _ _ => rfl
    split
    · exact timeless_throw _
    · refine timeless_bind timeless_verbose fun verbose => ?_
      split
      · exact timeless_bind (timeless_remark _) fun _ => timeless_pure _
      · exact timeless_pure _

theorem timeless_expandArguments (arguments : List String) :
    Timeless (expandArguments arguments : Act κ (List String)) := by
  induction arguments with
  | nil => exact timeless_pure _
  | cons argument arguments ih =>
      have hfirst : Timeless (expandArgument argument : Act κ (List String)) := by
        unfold expandArgument
        split
        · exact timeless_bind (timeless_matchPaths _ _) fun _ => timeless_pure _
        · exact timeless_pure _
      exact timeless_bind hfirst fun _ => timeless_bind ih fun _ => timeless_pure _

theorem timeless_openOutput (sink : Sink) : Timeless (openOutput sink : Act κ (Option Nat)) := by
  cases sink with
  | inherit => exact timeless_pure _
  | file index => exact timeless_pure _
  | path path =>
      dsimp only [openOutput]
      split
      · exact timeless_throw _
      · refine timeless_get_bind (fun m => ?_) fun _ _ _ => rfl
        split
        · exact timeless_throw _
        · exact timeless_bind (timeless_modify fun _ _ _ => rfl) fun _ => timeless_pure _

section

variable [Program κ]

theorem timeless_launch (program : String) (argv : List String) (out err : Option Nat)
    (owned : List Nat) : Timeless (launch program argv out err owned : Act κ Nat) := by
  intro clock inTask m
  unfold launch
  split
  · rfl
  · rw [resultOf, stateAfter, run_bind, run_bind, run_get, run_get]
    dsimp only [Machine.shifted]
    cases (Program.load m.disk m.environment (program :: argv) out err :
        Except Errno (Disk × κ)) with
    | error code => rfl
    | ok loaded => rfl

theorem timeless_openAndLaunch (program : String) (argv : List String) (out err : Sink) :
    Timeless (openAndLaunch program argv out err : Act κ Nat) := by
  have hlaunch : ∀ (before : Machine κ) (outFile errFile : Option Nat),
      Timeless ((do
        let now ← get
        launch program argv outFile errFile (now.held.drop before.held.length) : Act κ Nat)) :=
    fun before outFile errFile =>
      timeless_get_bind (fun _ => timeless_launch _ _ _ _ _) fun _ _ _ => rfl
  refine timeless_get_bind (fun before => ?_) fun _ _ _ => rfl
  refine timeless_bind (timeless_openOutput out) fun outFile => ?_
  cases err with
  | path path =>
      dsimp only
      split
      · exact timeless_bind (timeless_pure _) fun _ => hlaunch before _ _
      · exact timeless_bind (timeless_openOutput _) fun _ => hlaunch before _ _
  | _ => exact timeless_bind (timeless_openOutput _) fun _ => hlaunch before _ _

theorem timeless_start (program : String) (argv : List String) (out err : Sink) :
    Timeless (start program argv out err : Act κ (Option Nat)) := by
  refine timeless_get_bind (fun before => ?_) fun _ _ _ => rfl
  refine timeless_tryCatch (timeless_map (timeless_openAndLaunch _ _ _ _) _) fun failure => ?_
  split
  · exact timeless_bind (timeless_modify fun _ _ _ => rfl) fun _ =>
      timeless_bind (timeless_remark _) fun _ => timeless_pure _
  · exact timeless_throw _

theorem timeless_startTraced (program : String) (argv : List String) (out err : Sink) :
    Timeless (startTraced program argv out err : Act κ (Option Nat)) := by
  refine timeless_bind (timeless_expandArguments argv) fun arguments => ?_
  refine timeless_bind timeless_verbose fun verbose => ?_
  split
  · exact timeless_bind (timeless_remark _) fun _ => timeless_start _ _ _ _
  · exact timeless_start _ _ _ _

end

/-! ## Preparing a run and cleaning up after it -/

theorem timeless_scratchPath : Timeless (scratchPath : Act κ String) := by
  refine timeless_bind ?_ fun directory => ?_
  · exact timeless_bind timeless_settings fun _ => timeless_bind (timeless_onDisk _) fun _ =>
      timeless_pure _
  · exact timeless_get_bind (fun _ => timeless_bind (timeless_modify fun _ _ _ => rfl) fun _ =>
      timeless_pure _) fun _ _ _ => rfl

theorem timeless_prepare (job : Job) : Timeless (prepare job : Act κ (JobResult ⊕ Call)) := by
  unfold prepare
  split
  · split
    · exact timeless_pure _
    · exact timeless_pure _
  · refine timeless_bind ?_ fun capture => ?_
    · unfold prepareCapture
      split
      · exact timeless_pure _
      · exact timeless_bind timeless_scratchPath fun _ => timeless_pure _
      · exact timeless_bind timeless_scratchPath fun _ => timeless_pure _
      · exact timeless_bind timeless_scratchPath fun _ =>
          timeless_bind timeless_scratchPath fun _ => timeless_pure _
    · cases capture with
      | _ => exact timeless_pure _

theorem timeless_collect (call : Call) (code : Int) :
    Timeless (collect call code : Act κ JobResult) := by
  have hread : ∀ path, Timeless (readText path : Act κ String) := by
    intro path
    refine timeless_get_bind (fun m => ?_) fun _ _ _ => rfl
    split
    · exact timeless_pure _
    · exact timeless_pure _
    · exact timeless_throw _
  unfold collect
  split
  · exact timeless_pure _
  · exact timeless_bind (hread _) fun _ => timeless_pure _
  · exact timeless_bind (hread _) fun _ => timeless_bind (hread _) fun _ => timeless_pure _

theorem timeless_cleanUp (call : Call) : Timeless (cleanUp call : Act κ Unit) := by
  intro clock inTask m
  rw [resultOf, stateAfter, run_cleanUp, run_cleanUp]
  rfl

/-! ## Handles -/

theorem timeless_handleAt (id : Nat) : Timeless (handleAt id : Act κ Handle) :=
  timeless_get_bind (fun _ => timeless_pure _) fun _ _ _ => rfl

theorem timeless_setHandle (id : Nat) (handle : Handle) :
    Timeless (setHandle id handle : Act κ Unit) := timeless_modify fun _ _ _ => rfl

theorem timeless_takeAnswer (id : Nat) (handle : Handle) (now : Answer) :
    Timeless (takeAnswer id handle now : Act κ WaitResult) := by
  unfold takeAnswer
  refine timeless_bind (timeless_setHandle _ _) fun _ => ?_
  split
  · exact timeless_pure _
  · exact timeless_pure _
  · exact timeless_bind (timeless_remark _) fun _ => timeless_pure _
  · exact timeless_throw _

theorem timeless_close (id : Nat) : Timeless (close id : Act κ Unit) := by
  refine timeless_bind (timeless_modify fun _ _ _ => rfl) fun _ => ?_
  refine timeless_bind (timeless_handleAt id) fun handle => ?_
  split
  · exact timeless_throw _
  · exact timeless_bind (timeless_setHandle _ _) fun _ => timeless_modify fun _ _ _ => rfl

end Act

end BuildRunner
