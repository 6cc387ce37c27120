import BuildRunner.Proofs.Schedule.Interleaving

/-!
# Going back

To go back to a directory is to ask first which directory is the current one.  That question has no
answer in a directory that has been removed, so there is no way back from one, even to a directory
that stands.  From anywhere else the way back is found, whatever other tasks have done meanwhile.
-/

namespace BuildRunner

open BuildRunner.Schedule

variable {κ : Type}

/-- A turn leaves a task suspended, or it is its last. -/
theorem Schedule.Stage.after_cases {τ ρ ε : Type} (result : Except ε (Progress τ ρ)) :
    Stage.after result = .over ∨ ∃ rest, Stage.after result = .suspended rest := by
  rcases result with failure | result | ⟨delay, rest⟩
  · exact Or.inl rfl
  · exact Or.inl rfl
  · exact Or.inr ⟨rest, rfl⟩

namespace Disk

/-- The path of the current directory leads nowhere else. -/
theorem eq_cwd_of_locate {d : Disk} {path : String} {place : Place}
    (hhere : d.cwd.Stands d.tree) (hpath : d.currentPath = .ok path)
    (hplace : d.locate true path = .ok (.directory place)) : place = d.cwd := by
  unfold locate at hplace
  have hshort : path.utf8ByteSize < pathLimit := by
    by_contra hlong
    unfold BuildRunner.locate checkPath at hplace
    split at hplace
    · cases hplace
    · rw [if_pos (Nat.le_of_not_lt hlong)] at hplace
      cases hplace
  rw [locate_path hhere d.cwd (currentPath_eq_ok.mp hpath) hshort] at hplace
  cases hplace
  rfl

end Disk

namespace Act

/-- From a directory that stands the way leads to any directory. -/
theorem run_restore {m : Machine κ} {directory : String} {place : Place}
    (hhere : m.disk.cwd.Stands m.disk.tree) (hdirectory : m.disk.isDirectory directory = true)
    (hplace : m.disk.locate true directory = .ok (.directory place)) :
    (restore directory : Act κ Unit).run m =
      (.ok (), { m with disk := { m.disk with cwd := place } }) := by
  obtain ⟨path, hpath⟩ : ∃ path, m.disk.currentPath = .ok path :=
    ⟨_, Disk.currentPath_eq_ok.mpr (Place.path?_eq hhere.here)⟩
  unfold restore
  rw [run_bind, run_currentPath, hpath]
  dsimp only
  by_cases hsame : path = directory
  · subst hsame
    rw [if_neg (not_not.mpr rfl), Disk.eq_cwd_of_locate hhere hpath hplace]
    rfl
  · have hchange : (DiskM.change directory fun d => d.changeDirectory directory).run m.disk =
        (.ok (), { m.disk with cwd := place }) := by
      unfold DiskM.change Disk.changeDirectory
      rw [run_bind, run_ask, Disk.hasNul_of_isDirectory hdirectory, hplace]
      rfl
    rw [if_pos hsame, run_onDisk, resultOf_of_run hchange, stateAfter_of_run hchange]

/-- From a directory that has been removed no way leads anywhere. -/
theorem run_restore_of_removed {m : Machine κ} (hremoved : m.disk.cwd.path? = none)
    (directory : String) :
    (restore directory : Act κ Unit).run m = (.error (.system .notFound none none), m) := by
  unfold restore
  rw [run_bind, run_currentPath, Disk.currentPath, hremoved]
  rfl

end Act

variable [Program κ] {world : Machine κ → Machine κ → Prop}

namespace Act

/-- A run that is over with its first turn. -/
theorem cwd_of_over_at_once (hload : LoadsQuietly κ) {job : Job} {m : Machine κ}
    (hover : Stage.after (coroutine.resume (.fresh (.job job)) m).1 = (.over : Stage TaskState))
    (hkept : (coroutine.resume (.fresh (.job job)) m).2.disk.tree.kindAt m.disk.cwd.base =
      some .directory) :
    (coroutine.resume (.fresh (.job job)) m).2.disk.cwd = m.disk.cwd := by
  rcases begun_resume hload job m with
    ⟨result, m', hrun, -, hfiling, -⟩ | ⟨call, m₁, outcome, hprepare, -, hbegun, hrun⟩
  · rw [hrun]
    exact hfiling.disk.current
  · have hprepared := (respects_prepare job).of_run hprepare
    rw [hrun] at hover hkept ⊢
    rw [← hprepared.disk.current] at hkept ⊢
    cases hbegun with
    | suspended => cases hover
    | finished hend => exact hend.cwd hkept
    | failed hend => exact hend.cwd hkept

theorem over_reaches {session last : Session (Machine κ) TaskState} {index : Nat}
    (htask : session.tasks index = some .over)
    (hreaches : Session.Reaches coroutine world session last) :
    last.tasks index = some .over := by
  induction hreaches with
  | refl => exact htask
  | tail _ hstep ih => exact over_step ih hstep

/-- A run waits until it is over. -/
theorem waiting_reaches {session last : Session (Machine κ) TaskState} {index : Nat}
    {waiting : Waiting} (htask : session.tasks index = some (.suspended (.waiting waiting)))
    (hreaches : Session.Reaches coroutine world session last) :
    last.tasks index = some (.suspended (.waiting waiting)) ∨ last.tasks index = some .over := by
  induction hreaches with
  | refl => exact Or.inl htask
  | tail _ hstep ih =>
      rcases ih with hwaits | hover
      · exact (waiting_step hwaits hstep).imp_right And.left
      · exact Or.inr (over_step hover hstep)

/-- A run that has waited is back where it was suspended first. -/
theorem cwd_of_over_at_last {spawned last next : Session (Machine κ) TaskState} {index : Nat}
    {waiting : Waiting} {place : Place}
    (htask : spawned.tasks index = some (.suspended (.waiting waiting)))
    (hsaved : place.path? = some waiting.saved) (hshort : waiting.saved.utf8ByteSize < pathLimit)
    (hplace : place.Stands spawned.state.disk.tree)
    (hreaches : Session.Reaches coroutine world spawned last)
    (hstep : Session.Step coroutine world last next) (hlast : last.tasks index ≠ some .over)
    (hover : next.tasks index = some .over)
    (hthere : last.state.disk.cwd.Stands last.state.disk.tree)
    (hkept : next.state.disk.tree.kindAt place.base = some .directory) :
    next.state.disk.cwd = place := by
  have hwaits := (waiting_reaches htask hreaches).resolve_right hlast
  have hdisk : next.state.disk =
      (last.state.disk.backAt waiting.saved).without waiting.call.capture.paths := by
    rcases waiting_step hwaits hstep with hsame | ⟨-, hdisk⟩
    · rw [hsame] at hover
      cases hover
    · exact hdisk
  rw [hdisk] at hkept ⊢
  have hfound : last.state.disk.tree.kindAt place.base = some .directory := by
    have hfades := fades_without waiting.call.capture.paths (last.state.disk.backAt waiting.saved)
    rw [← Disk.tree_backAt last.state.disk waiting.saved]
    rcases hfades.tree place.base with hnone | hsame
    · rw [hnone] at hkept
      cases hkept
    · rw [← hsame, hkept]
  have hback : (last.state.disk.backAt waiting.saved).cwd = place :=
    Disk.cwd_backAt ⟨hplace.here, hfound, hplace.accepted⟩ hthere hsaved hshort
  rw [← hback] at hkept
  rw [Disk.cwd_without _ hkept, hback]

end Act

/-- A run that has begun in a directory gets back to it, if that directory is there when the run is
over and if the directory that it would get back from has not been removed. -/
structure GetsBack (world : Machine κ → Machine κ → Prop)
    (session spawned : Session (Machine κ) TaskState) (index : Nat) : Prop where
  atOnce : spawned.tasks index = some .over →
    spawned.state.disk.tree.kindAt session.state.disk.cwd.base = some .directory →
      spawned.state.disk.cwd = session.state.disk.cwd
  atLast : ∀ last next, Session.Reaches Act.coroutine world spawned last →
    Session.Step Act.coroutine world last next → last.tasks index ≠ some .over →
    next.tasks index = some .over → last.state.disk.cwd.Stands last.state.disk.tree →
    next.state.disk.tree.kindAt session.state.disk.cwd.base = some .directory →
      next.state.disk.cwd = session.state.disk.cwd

namespace Act

theorem getsBack_of_begin (hload : LoadsQuietly κ) {session : Session (Machine κ) TaskState}
    {saved : String} (hhere : session.state.disk.cwd.Stands session.state.disk.tree)
    (hsaved : session.state.disk.currentPath = .ok saved) (hshort : saved.utf8ByteSize < pathLimit)
    (index : Nat) (job : Job) :
    GetsBack world session (session.afterTurn coroutine index (.fresh (.job job))) index := by
  have hself := Session.tasks_afterTurn_self coroutine session index (.fresh (.job job))
  constructor
  · intro hover hkept
    rw [hself, Option.some.injEq] at hover
    exact cwd_of_over_at_once hload hover hkept
  · intro last next hreaches hstep hlast hover hthere hkept
    rcases Stage.after_cases (coroutine.resume (.fresh (.job job)) session.state).1 with
      hdone | ⟨state, hsuspended⟩
    · rw [hdone] at hself
      exact absurd (over_reaches hself hreaches) hlast
    · obtain ⟨waiting, -, rfl, -, hcurrent, hways, -⟩ :=
        suspended_resume_job hload hhere.found hsuspended
      have hdirectories : session.state.disk.tree.KeepsDirectories
          (coroutine.resume (.fresh (.job job)) session.state).2.disk.tree :=
        fun location hdirectory => hways location .directory trivial hdirectory
      have hstays := cwd_resume_job hload job hhere.found hdirectories
      have hpath : session.state.disk.cwd.path? = some waiting.saved := by
        rw [← hstays]
        exact Disk.currentPath_eq_ok.mp hcurrent
      have hsame : waiting.saved = saved := by
        rw [Disk.currentPath_eq_ok, hpath, Option.some.injEq] at hsaved
        exact hsaved
      rw [hsuspended] at hself
      exact cwd_of_over_at_last hself hpath (hsame ▸ hshort) (hhere.of_keeps hdirectories) hreaches
        hstep hlast hover hthere hkept

/-- The way back to a directory that stands is found from every directory that stands, and from no
directory that has been removed. -/
theorem restored_unless_removed (hload : LoadsQuietly κ) (world : Machine κ → Machine κ → Prop) :
    (∀ (m : Machine κ) (directory : String) (place : Place), m.disk.cwd.Stands m.disk.tree →
      m.disk.isDirectory directory = true →
      m.disk.locate true directory = .ok (.directory place) →
        (restore directory).run m = (.ok (), { m with disk := { m.disk with cwd := place } })) ∧
    (∀ (m : Machine κ) (directory : String), m.disk.cwd.path? = none →
      (restore directory).run m = (.error (.system .notFound none none), m)) ∧
    ∀ (session : Session (Machine κ) TaskState) (saved : String) (index : Nat) (job : Job),
      session.state.disk.cwd.Stands session.state.disk.tree →
      session.state.disk.currentPath = .ok saved → saved.utf8ByteSize < pathLimit →
        GetsBack world session (session.afterTurn coroutine index (.fresh (.job job))) index := by
  refine ⟨?_, ?_, ?_⟩
  · intro m directory place hhere hdirectory hplace
    exact run_restore hhere hdirectory hplace
  · intro m directory hremoved
    exact run_restore_of_removed hremoved directory
  · intro session saved index job hhere hsaved hshort
    exact getsBack_of_begin hload hhere hsaved hshort index job

/-- The run at work gets back there from the root of the disk. -/
theorem restored_unless_removed_work :
    LoadsQuietly Pause ∧
      (overAway workMachine shortRun workWaiting).state.disk.cwd = ⟨["work"], []⟩ := by
  refine ⟨loadsQuietly_pause, ?_⟩
  have hback := (restored_unless_removed loadsQuietly_pause SameDisk).2.2
    (besideChore workMachine shortRun (.enter "/")) "/work" 0 shortRun stands_workMachine rfl
    (by decide)
  obtain ⟨settings, hsettings⟩ :
      ∃ settings, Settings.read workMachine.environment = .ok settings := ⟨_, rfl⟩
  have hroot : (endedAway workMachine shortRun).state.disk.cwd = .root := by decide
  obtain ⟨-, hcalm, hthere⟩ :=
    calmly_endedAway stands_workMachine waits_workMachine hsettings hroot
  obtain ⟨hstep, hover, -⟩ := disk_overAway waits_workMachine watches_workMachine
  have hreaches : Session.Reaches coroutine SameDisk
      (beforeChore workMachine shortRun (.enter "/")) (endedAway workMachine shortRun) :=
    hcalm.lift id fun _ _ hcalmStep => hcalmStep.step
  have hlast : (endedAway workMachine shortRun).tasks 0 ≠ some .over := by
    rw [tasks_endedAway waits_workMachine]
    simp
  have hkept : (overAway workMachine shortRun workWaiting).state.disk.tree.kindAt ["work"] =
      some .directory := by
    decide +kernel
  exact hback.atLast _ _ hreaches hstep hlast hover hthere hkept

/-- A machine in a directory that a task will remove. -/
def strayMachine : Machine Pause where
  disk := { tree := .dir [("d", .dir [] none)] none, cwd := ⟨["d"], []⟩ }
  environment := []

/-- Once the current directory has been removed there is no way to the root, which stands. -/
theorem not_restored_from_removed :
    (stateAfter (rm "/d" false) strayMachine).disk.isDirectory "/" = true ∧
      (stateAfter (rm "/d" false) strayMachine).disk.locate true "/" = .ok (.directory .root) ∧
      (stateAfter (restore "/") (stateAfter (rm "/d" false) strayMachine)).disk.cwd ≠ .root := by
  refine ⟨by decide, rfl, by decide⟩

end Act

end BuildRunner
