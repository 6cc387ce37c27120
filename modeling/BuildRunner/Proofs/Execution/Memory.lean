import BuildRunner.Proofs.Execution.Turns

/-!
# What runs do not touch

The environment is changed by no task, and the directory that `cd -` returns to only by a task that
changes directory with `cd`.  Runs put directories back without that memory.
-/

namespace BuildRunner

open BuildRunner.Schedule

variable {κ : Type}

/-- The environment and the remembered directory are as before. -/
abbrev SameMemory : Machine κ → Machine κ → Prop := OnlyDisk fun _ _ => True

theorem isFrame_sameMemory : IsFrame (SameMemory : Machine κ → Machine κ → Prop) :=
  isFrame_onlyDisk ⟨fun _ => trivial, fun _ _ => trivial⟩

theorem isFrame_environment : IsFrame fun m m' : Machine κ => m'.environment = m.environment :=
  ⟨fun _ => rfl, fun h h' => h'.trans h⟩

theorem SameMemory.of_filing {D : Disk → Disk → Prop} {m m' : Machine κ}
    (hfiling : Filing D m m') : SameMemory m m' := hfiling.onlyDisk.mono fun _ => trivial

theorem Respects.sameMemory {α : Type} {D : Disk → Disk → Prop} {action : Act κ α}
    (haction : Respects (Filing D) action) : Respects SameMemory action :=
  haction.mono fun _ _ => .of_filing

/-- The chores that are done in the next turn of a task. -/
def TaskState.chores : TaskState → List Chore
  | .choring chores => chores
  | _ => []

/-- One of the chores, which are done one after the other, is a `cd` that succeeds or that asks for
the remembered directory. -/
inductive Recalls : Machine κ → List Chore → Prop
  | asks {m : Machine κ} {rest : List Chore} : Recalls m (.cd "-" :: rest)
  | moves {m : Machine κ} {directory : String} {rest : List Chore}
      (hsuccess : resultOf (Act.cd directory) m = .ok .success) : Recalls m (.cd directory :: rest)
  | later {m m₁ : Machine κ} {chore : Chore} {rest : List Chore}
      (hrun : (Act.runChore chore).run m = (.ok (), m₁)) (hlater : Recalls m₁ rest) :
      Recalls m (chore :: rest)

namespace Act

/-! ## Changing directory with and without memory -/

theorem previous_cdTo (target : String) (m : Machine κ)
    (hfailed : resultOf (cdTo target) m ≠ .ok .success) :
    (stateAfter (cdTo target) m).previous = m.previous := by
  let change : DiskM Report := DiskM.reporting
    (fun reason => return "cannot change directory " ++ target ++ " " ++ reason)
    do
      DiskM.change target fun d => d.changeDirectory target
      return .success
  have hcdTo : (cdTo target : Act κ Report).run m =
      if (!m.disk.isDirectory target) = true then
        (.ok (.refused ("cannot change directory " ++ target ++ ", not found this directory")), m)
      else (do
        let current ← currentPath
        let report ← onDisk change
        if report = .success then modify fun m => { m with previous := some current }
        return report : Act κ Report).run m := by
    unfold cdTo
    rw [run_bind, run_get]
    dsimp only
    split
    · rfl
    · rfl
  rw [resultOf, hcdTo] at hfailed
  rw [stateAfter, hcdTo]
  split
  · rfl
  · next hthere =>
      rw [if_neg hthere, run_bind, run_currentPath] at hfailed
      rw [run_bind, run_currentPath]
      cases hcurrent : m.disk.currentPath with
      | error code => rfl
      | ok current =>
          rw [hcurrent] at hfailed
          dsimp only at hfailed ⊢
          rw [run_bind, run_onDisk] at hfailed ⊢
          rcases hreport : resultOf change m.disk with failure | report
          · rfl
          · rw [hreport] at hfailed
            cases report with
            | success => exact absurd rfl hfailed
            | refused message => rfl

theorem previous_cd {directory : String} (hdash : directory ≠ "-") (m : Machine κ)
    (hfailed : resultOf (cd directory) m ≠ .ok .success) :
    (stateAfter (cd directory) m).previous = m.previous := by
  have hcd : (cd directory : Act κ Report).run m =
      if directory.isEmpty = true then
        (.ok (.refused "cannot change directory: no directory given"), m)
      else (cdTo directory).run m := by
    unfold cd
    split
    · rfl
    · rw [run_bind, run_get]
      simp [hdash]
  rw [resultOf, hcd] at hfailed
  rw [stateAfter, hcd]
  split
  · rfl
  · next hgiven =>
      rw [if_neg hgiven] at hfailed
      exact previous_cdTo directory m hfailed

/-- A chore changes the remembered directory only if it is such a `cd`. -/
theorem previous_runChore (chore : Chore) (rest : List Chore) (m : Machine κ) :
    (stateAfter (runChore chore) m).previous = m.previous ∨ Recalls m (chore :: rest) := by
  cases chore with
  | enter directory => exact Or.inl (respects_enter directory m).previous
  | rm path prune =>
      have hrm : Respects (Filing Disk.Fades) (runChore (.rm path prune) : Act κ Unit) :=
        respects_map (respects_onDisk (respects_rm_prune path prune)) _
      exact Or.inl (hrm m).previous
  | make base entry =>
      exact Or.inl (respects_onDisk (respects_makeEntries base [entry]) m).previous
  | cd directory =>
      by_cases hdash : directory = "-"
      · subst hdash
        exact Or.inr .asks
      · by_cases hsuccess : resultOf (cd directory) m = .ok .success
        · exact Or.inr (.moves hsuccess)
        · refine Or.inl ?_
          have hsame := previous_cd hdash m hsuccess
          have hrun := run_map (Function.const Report ()) (cd directory : Act κ Report) m
          rw [stateAfter] at hsame ⊢
          rcases hcd : (cd directory : Act κ Report).run m with ⟨failure | report, m'⟩
          · rw [hcd] at hrun hsame
            exact (congrArg (fun outcome => outcome.2.previous) hrun).trans hsame
          · rw [hcd] at hrun hsame
            exact (congrArg (fun outcome => outcome.2.previous) hrun).trans hsame

theorem previous_chores (chores : List Chore) (m : Machine κ) :
    (stateAfter (chores.forM runChore : Act κ PUnit) m).previous = m.previous ∨
      Recalls m chores := by
  induction chores generalizing m with
  | nil => exact Or.inl rfl
  | cons chore chores ih =>
      have hforM : ((chore :: chores).forM runChore : Act κ PUnit).run m =
          (runChore chore >>= fun _ => chores.forM runChore : Act κ PUnit).run m := rfl
      rw [stateAfter, hforM, run_bind]
      rcases previous_runChore chore chores m with hsame | hrecalls
      · rw [stateAfter] at hsame
        rcases hchore : (runChore chore : Act κ Unit).run m with ⟨failure | _, m₁⟩
        · rw [hchore] at hsame
          exact Or.inl hsame
        · rw [hchore] at hsame
          rcases ih m₁ with hrest | hlater
          · exact Or.inl (hrest.trans hsame)
          · exact Or.inr (.later hchore hlater)
      · exact Or.inr hrecalls

/-! ## Turns -/

theorem sameMemory_close (id : Nat) : Respects SameMemory (close id : Act κ Unit) :=
  (respects_close id).mono fun _ _ honly => honly.mono fun _ => trivial

theorem sameMemory_endWait (waiting : Waiting) :
    Respects SameMemory (endWait waiting : Act κ Unit) :=
  respects_ensuring isFrame_sameMemory (respects_putBack _).sameMemory (sameMemory_close _)

theorem sameMemory_abandon (waiting : Waiting) :
    Respects SameMemory (abandon waiting : Act κ Unit) :=
  respects_ensuring isFrame_sameMemory (sameMemory_endWait _) (respects_cleanUp _).sameMemory

theorem sameMemory_cancel (state : TaskState) :
    Respects SameMemory (cancel state : Act κ Unit) := by
  cases state with
  | waiting waiting => exact sameMemory_abandon waiting
  | fresh task => exact respects_pure isFrame_sameMemory _
  | stepping name logged left abort => exact respects_pure isFrame_sameMemory _
  | choring chores => exact respects_pure isFrame_sameMemory _

variable [Program κ]

theorem sameMemory_startTraced (hload : LoadsQuietly κ) (program : String) (argv : List String)
    (out err : Sink) :
    Respects SameMemory (startTraced program argv out err : Act κ (Option Nat)) := by
  intro m
  have htried := tried_startTraced hload program argv out err m
  rw [stateAfter]
  generalize (startTraced program argv out err).run m = outcome at htried
  cases htried with
  | started hspawns _ => exact hspawns.mono fun _ => trivial
  | refused hspawns _ => exact hspawns.mono fun _ => trivial
  | failed hspawns _ => exact hspawns.mono fun _ => trivial

theorem sameMemory_poll (waiting : Waiting) : Respects SameMemory (poll waiting : Act κ Polled) := by
  intro m
  have hwaited := waited_poll waiting m
  rw [stateAfter]
  generalize (poll waiting).run m = outcome at hwaited
  have hends : ∀ {m'}, Ends waiting m m' → SameMemory m m' := by
    rintro m' ⟨hbefore, hbetween⟩
    refine isFrame_sameMemory.trans (.of_filing hbefore) ?_
    refine isFrame_sameMemory.trans (sameMemory_endWait waiting _) ?_
    exact isFrame_sameMemory.trans (.of_filing hbetween) ((respects_cleanUp _).sameMemory _)
  cases hwaited with
  | suspended hquiet => exact .of_filing hquiet
  | finished hbefore hcollect =>
      exact hends (.intro hbefore ((respects_collect _ _).of_run hcollect))
  | failed h => exact hends h

theorem sameMemory_beginJob (hload : LoadsQuietly κ) (job : Job) :
    Respects SameMemory (beginJob job : Act κ Polled) := by
  have hR : IsFrame (SameMemory : Machine κ → Machine κ → Prop) := isFrame_sameMemory
  unfold beginJob
  refine respects_bind hR (respects_prepare job).sameMemory fun prepared => ?_
  cases prepared with
  | inl result => exact respects_pure hR _
  | inr call =>
      have hcleanUp : Respects SameMemory (cleanUp call : Act κ Unit) :=
        (respects_cleanUp call).sameMemory
      refine respects_bind hR (respects_onFailure hR (sameMemory_startTraced hload _ _ _ _)
        hcleanUp) fun started => ?_
      cases started with
      | none =>
          refine respects_bind hR ?_ fun _ => respects_pure hR _
          exact respects_ensuring hR (respects_collect call _).sameMemory hcleanUp
      | some handle =>
          refine respects_bind hR (respects_onFailure hR respects_currentPath.sameMemory ?_)
            fun saved => sameMemory_poll _
          exact respects_ensuring hR (sameMemory_close handle) hcleanUp

/-- What only the chores of a task may change, its turn changes no more than they do. -/
theorem respects_turn (hload : LoadsQuietly κ) {R : Machine κ → Machine κ → Prop} (hR : IsFrame R)
    (hmemory : ∀ {m m'}, SameMemory m m' → R m m') {state : TaskState}
    (hchores : ∀ chore ∈ state.chores, Respects R (runChore chore : Act κ Unit)) :
    Respects R (turn state : Act κ (Progress TaskState TaskResult)) := by
  have hquiet : ∀ {α : Type} {action : Act κ α}, Respects Quiet action → Respects R action :=
    fun haction => haction.mono fun _ _ hquiet => hmemory (.of_filing hquiet)
  cases state with
  | fresh task =>
      cases task with
      | job job =>
          exact respects_map ((sameMemory_beginJob hload job).mono fun _ _ => hmemory) _
      | steps name count abort =>
          exact respects_bind hR (hquiet (respects_log _)) fun _ =>
            hquiet (respects_goOnStepping _ _ _ _)
      | after chores =>
          exact respects_bind hR (hquiet respects_suspension) fun _ => respects_pure hR _
  | waiting waiting => exact respects_map ((sameMemory_poll waiting).mono fun _ _ => hmemory) _
  | stepping name logged left abort =>
      exact respects_bind hR (hquiet (respects_log _)) fun _ =>
        hquiet (respects_goOnStepping _ _ _ _)
  | choring chores =>
      exact respects_bind hR (respects_forM hR hchores) fun _ => respects_pure hR _

/-- A turn changes the remembered directory only by such a `cd` among its chores. -/
theorem previous_turn (hload : LoadsQuietly κ) (state : TaskState) (m : Machine κ) :
    (stateAfter (turn state) m).previous = m.previous ∨ Recalls m state.chores := by
  have hother : state.chores = [] → (stateAfter (turn state) m).previous = m.previous := by
    intro hnone
    refine (respects_turn hload isFrame_sameMemory (fun hsame => hsame) ?_ m).previous
    simp [hnone]
  cases state with
  | fresh task => exact Or.inl (hother rfl)
  | waiting waiting => exact Or.inl (hother rfl)
  | stepping name logged left abort => exact Or.inl (hother rfl)
  | choring chores =>
      rcases previous_chores chores m with hsame | hrecalls
      · refine Or.inl ?_
        have hturn : (turn (.choring chores) : Act κ (Progress TaskState TaskResult)).run m =
            (do
              chores.forM runChore
              return .ended .nothing : Act κ (Progress TaskState TaskResult)).run m := rfl
        rw [stateAfter, hturn, run_bind]
        rw [stateAfter] at hsame
        rcases hchores : (chores.forM runChore : Act κ PUnit).run m with ⟨failure | _, m'⟩
        · rw [hchores] at hsame
          exact hsame
        · rw [hchores] at hsame
          exact hsame
      · exact Or.inr hrecalls

theorem sameEnvironment_turn (hload : LoadsQuietly κ) (state : TaskState) :
    Respects (fun m m' => m'.environment = m.environment)
      (turn state : Act κ (Progress TaskState TaskResult)) :=
  respects_turn hload isFrame_environment (fun hsame => hsame.environment) fun chore _ =>
    respects_runChore isFrame_environment (fun hfiling => hfiling.environment) (fun _ _ => rfl) chore

end Act

end BuildRunner
