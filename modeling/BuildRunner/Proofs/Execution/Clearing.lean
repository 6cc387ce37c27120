import BuildRunner.Proofs.Execution.Turns

/-!
# Scratch files are removed

When a run has come to its end, in whichever way, no file stands at any of the paths that its output
was captured at.  The paths have to be absolute for that: what a relative path names depends on the
directory that is current.
-/

namespace BuildRunner

open BuildRunner.Schedule

variable {κ : Type}

/-- The files of a capture are named by absolute paths. -/
def Capture.IsAbsolute (capture : Capture) : Prop :=
  ∀ path ∈ capture.paths, (∃ name, NamesEntry path name) ∧ Path.isAbsolute path = true

/-- No file stands at any of the paths of a capture. -/
def Capture.IsCleared (capture : Capture) (d : Disk) : Prop :=
  ∀ path ∈ capture.paths, d.HoldsNoFile path

/-- Paths that hold no file keep holding none while others are removed. -/
theorem noFile_of_removals {path : String} (habsolute : Path.isAbsolute path = true)
    (paths : List String) {d : Disk} (hnofile : d.HoldsNoFile path) :
    (d.without paths).HoldsNoFile path :=
  hnofile.of_prunes habsolute (fades_without paths d).tree

theorem Act.isCleared_cleanUp {call : Call} (habsolute : call.capture.IsAbsolute) (m : Machine κ) :
    call.capture.IsCleared (stateAfter (cleanUp call) m).disk := by
  rw [stateAfter_cleanUp]
  unfold Capture.IsCleared
  dsimp only
  rw [Capture.IsAbsolute] at habsolute
  generalize call.capture.paths = paths at habsolute
  generalize m.disk = d
  induction paths generalizing d with
  | nil => simp
  | cons path paths ih =>
      intro other hother
      rw [Disk.without, List.foldl_cons]
      have hrest := ih (fun path hpath => habsolute path (List.mem_cons_of_mem _ hpath))
        (stateAfter (DiskM.rm path false) d)
      rcases List.mem_cons.mp hother with rfl | hother
      · obtain ⟨⟨name, hentry⟩, hroot⟩ := habsolute other (by simp)
        exact noFile_of_removals hroot paths (rm_leaves_no_file hentry hroot d)
      · exact hrest other hother

theorem Ends.isCleared {waiting : Waiting} {m m' : Machine κ} (hends : Ends waiting m m')
    (habsolute : waiting.call.capture.IsAbsolute) : waiting.call.capture.IsCleared m'.disk := by
  obtain ⟨-, -⟩ := hends
  exact Act.isCleared_cleanUp habsolute _

theorem Over.isCleared {call : Call} {m m' : Machine κ} (hover : Over call m m')
    (habsolute : call.capture.IsAbsolute) : call.capture.IsCleared m'.disk := by
  cases hover with
  | unstarted hspawns hbooks => exact Act.isCleared_cleanUp habsolute _
  | ended hcall hspawns hstarted hsaved hends =>
      subst hcall
      exact hends.isCleared habsolute
  | lost hspawns hstarted hlost => exact Act.isCleared_cleanUp habsolute _

theorem isAbsolute_of_prepare {job : Job} {call : Call} {m m' : Machine κ}
    (hscratch : m.environment.HasAbsoluteScratch)
    (hrun : (Act.prepare job : Act κ (JobResult ⊕ Call)).run m = (.ok (.inr call), m')) :
    call.capture.IsAbsolute := by
  intro path hpath
  have hpath' := (Act.call_of_prepare hrun).1 path hpath
  exact ⟨hpath'.entry, hpath'.absolute hscratch⟩

/-- The call that a task begins with its next turn, or waits for. -/
def TaskState.call? (m : Machine κ) : TaskState → Option Call
  | .fresh (.job job) =>
    match resultOf (Act.insideTask (Act.prepare job)) m with
    | .ok (.inr call) => some call
    | _ => none
  | .waiting run => some run.call
  | _ => none

theorem TaskState.call?_fresh {job : Job} {m : Machine κ} {call : Call} :
    (TaskState.fresh (.job job)).call? m = some call ↔
      resultOf (Act.prepare job) { m with inTask := true } = .ok (.inr call) := by
  have hprepare : resultOf (Act.insideTask (Act.prepare job)) m =
      resultOf (Act.prepare job) { m with inTask := true } := by
    rw [resultOf, Act.run_insideTask]
  unfold call?
  dsimp only
  rw [hprepare]
  rcases resultOf (Act.prepare job) { m with inTask := true } with failure | result | other
  · simp
  · simp
  · simp

namespace Act

variable [Program κ]

/-- A turn that ends a run leaves none of its scratch files. -/
theorem isCleared_resume (hload : LoadsQuietly κ) {state : TaskState} {m : Machine κ} {call : Call}
    (hcall : state.call? m = some call) (habsolute : call.capture.IsAbsolute)
    (hover : Stage.after (coroutine.resume state m).1 = (.over : Stage TaskState)) :
    call.capture.IsCleared (coroutine.resume state m).2.disk := by
  cases state with
  | fresh task =>
      cases task with
      | job job =>
          rw [TaskState.call?_fresh] at hcall
          rcases begun_resume hload job m with
            ⟨_, _, -, -, -, hnone⟩ | ⟨other, m₁, outcome, hprepare, -, hbegun, hrun⟩
          · exact absurd hcall (hnone call)
          · rw [resultOf_of_run hprepare] at hcall
            cases hcall
            rw [hrun] at hover ⊢
            cases hbegun with
            | suspended => cases hover
            | finished hend => exact hend.isCleared habsolute
            | failed hend => exact hend.isCleared habsolute
      | steps name count abort => cases hcall
      | after chores => cases hcall
  | waiting waiting =>
      cases hcall
      obtain ⟨outcome, hwaited, hrun⟩ := waited_resume waiting m
      rw [hrun] at hover ⊢
      cases hwaited with
      | suspended => cases hover
      | finished hbefore hcollect => exact isCleared_cleanUp habsolute _
      | failed hends => exact hends.isCleared habsolute
  | stepping name logged left abort => cases hcall
  | choring chores => cases hcall

/-- A task that suspends waits for the call that it had. -/
theorem call?_of_suspended (hload : LoadsQuietly κ) {state : TaskState} {m : Machine κ}
    {waiting : Waiting}
    (hsuspended : Stage.after (coroutine.resume state m).1 = .suspended (.waiting waiting)) :
    state.call? m = some waiting.call := by
  have hother : state.isRun = false → state.call? m = some waiting.call := by
    intro hrun
    have hnone := handle?_turn hrun { m with inTask := true }
    rw [resume_eq] at hsuspended
    rw [hsuspended] at hnone
    cases hnone
  cases state with
  | fresh task =>
      cases task with
      | job job =>
          rw [TaskState.call?_fresh]
          rcases begun_resume hload job m with
            ⟨_, _, hrun, hover, -, -⟩ | ⟨other, m₁, outcome, hprepare, -, hbegun, hrun⟩
          · rw [hrun, hover] at hsuspended
            cases hsuspended
          · rw [hrun] at hsuspended
            rw [resultOf_of_run hprepare]
            cases hbegun with
            | suspended hcall =>
                cases hsuspended
                rw [hcall]
            | finished => cases hsuspended
            | failed => cases hsuspended
      | steps name count abort => exact hother rfl
      | after chores => exact hother rfl
  | waiting before =>
      obtain ⟨outcome, hwaited, hrun⟩ := waited_resume before m
      rw [hrun] at hsuspended
      cases hwaited with
      | suspended =>
          cases hsuspended
          rfl
      | finished => cases hsuspended
      | failed => cases hsuspended
  | stepping name logged left abort => exact hother rfl
  | choring chores => exact hother rfl

theorem isCleared_cancel {waiting : Waiting} (habsolute : waiting.call.capture.IsAbsolute)
    (m : Machine κ) :
    waiting.call.capture.IsCleared (coroutine.cancel (.waiting waiting) m).disk := by
  rw [cancel_eq]
  exact (ends_abandon waiting { m with inTask := true }).isCleared habsolute

end Act

end BuildRunner
