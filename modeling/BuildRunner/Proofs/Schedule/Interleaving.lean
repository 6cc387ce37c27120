import BuildRunner.Proofs.Execution.Capturing
import BuildRunner.Proofs.Execution.Memory
import BuildRunner.Proofs.Schedule.Release

/-!
# Runs among other tasks

While a run is suspended, other tasks have their turns and may change the current directory.  As long
as no directory goes away, the run ends in the directory that it began in, whatever the others have
done and in whatever order.  So its files are where it left them.  The directory that `cd -` returns
to is none of its business: no step touches it but a `cd`.
-/

namespace BuildRunner

open BuildRunner.Schedule

variable {κ : Type}

/-- What a run that is over has made of its files: none is left, and its result, if it has one, is
made of what they held. -/
structure Settles (call : Call) (places : String → Location) (before after : Disk)
    (outcome : Except Failure (Progress TaskState TaskResult)) : Prop where
  removed : ∀ path ∈ call.capture.paths, after.tree.kindAt (places path) = none
  result : ∀ result, outcome = .ok (.ended (.run result)) →
    ∃ code, result = call.wanted.result code (call.capture.texts before places).1
      (call.capture.texts before places).2

variable [Program κ] {world : Machine κ → Machine κ → Prop}

/-- A step that removes and renames no directory.  The current directory is among those that
stand. -/
structure CalmStep (world : Machine κ → Machine κ → Prop)
    (session next : Session (Machine κ) TaskState) : Prop where
  step : Session.Step Act.coroutine world session next
  kept : session.state.disk.tree.KeepsDirectories next.state.disk.tree
  here : next.state.disk.cwd.Stands next.state.disk.tree

theorem CalmStep.of_tree {session next : Session (Machine κ) TaskState}
    (hstep : Session.Step Act.coroutine world session next)
    (htree : next.state.disk.tree = session.state.disk.tree)
    (hhere : next.state.disk.cwd.Stands next.state.disk.tree) : CalmStep world session next :=
  ⟨hstep, htree ▸ .refl _, hhere⟩

/-- Any number of such steps. -/
abbrev Calmly (world : Machine κ → Machine κ → Prop) :
    Session (Machine κ) TaskState → Session (Machine κ) TaskState → Prop :=
  Relation.ReflTransGen (CalmStep world)

namespace Act

/-! ## The first turn -/

/-- Nothing that happens in its first turn takes a run elsewhere. -/
theorem cwd_resume_job (hload : LoadsQuietly κ) (job : Job) {m : Machine κ}
    (hhere : m.disk.tree.kindAt m.disk.cwd.base = some .directory)
    (hkept : m.disk.tree.KeepsDirectories (coroutine.resume (.fresh (.job job)) m).2.disk.tree) :
    (coroutine.resume (.fresh (.job job)) m).2.disk.cwd = m.disk.cwd := by
  have hdir := hkept _ hhere
  rcases begun_resume hload job m with
    ⟨result, m', hrun, -, hfiling, -⟩ | ⟨call, m₁, outcome, hprepare, -, hbegun, hrun⟩
  · rw [hrun]
    exact hfiling.disk.current
  · have hprepared := (respects_prepare job).of_run hprepare
    have hcwd : m₁.disk.cwd = m.disk.cwd := hprepared.disk.current
    rw [hrun] at hdir ⊢
    dsimp only at hdir ⊢
    rw [← hcwd] at hdir ⊢
    cases hbegun with
    | suspended hcall hspawns => exact hspawns.disk.current
    | finished hover => exact hover.cwd hdir
    | failed hover => exact hover.cwd hdir

/-- A run that suspends with its first turn keeps the path of the current directory, and its output is
captured in files. -/
theorem suspended_resume_job (hload : LoadsQuietly κ) {job : Job} {m : Machine κ}
    (hhere : m.disk.tree.kindAt m.disk.cwd.base = some .directory) {state : TaskState}
    (hsuspended : Stage.after (coroutine.resume (.fresh (.job job)) m).1 = .suspended state) :
    ∃ waiting prepared, state = .waiting waiting ∧
      (prepare job).run { m with inTask := true } = (.ok (.inr waiting.call), prepared) ∧
      (coroutine.resume (.fresh (.job job)) m).2.disk.currentPath = .ok waiting.saved ∧
      m.disk.tree.KeepsWays (coroutine.resume (.fresh (.job job)) m).2.disk.tree ∧
      ∀ path ∈ waiting.call.capture.paths, prepared.disk.IsPlain path →
        ∃ location, (coroutine.resume (.fresh (.job job)) m).2.disk.HasFile path location := by
  rcases begun_resume hload job m with
    ⟨result, m', hrun, hover, -, -⟩ | ⟨call, m₁, outcome, hprepare, heq, hbegun, hrun⟩
  · rw [hrun, hover] at hsuspended
    cases hsuspended
  · rw [hrun] at hsuspended ⊢
    cases hbegun with
    | @suspended delay waiting m' hcall hspawns hstarted hsaved =>
        cases hsuspended
        subst hcall
        have hprepared := (respects_prepare job).of_run hprepare
        obtain ⟨hscratch, hcaptured⟩ := call_of_prepare hprepare
        refine ⟨waiting, m₁, rfl, hprepare, hsaved,
          hprepared.disk.tree.trans hspawns.disk.tree.keepsWays, fun path hpath hplain => ?_⟩
        obtain ⟨name, hentry⟩ := (hscratch path hpath).entry
        refine hasFile_beginCall hload hcaptured heq.symm ?_ hpath hentry hplain
        rw [hprepared.disk.current]
        exact hprepared.disk.tree _ _ trivial hhere
    | finished => cases hsuspended
    | failed => cases hsuspended

/-- A run that is over with its first turn. -/
theorem settles_resume_job (hload : LoadsQuietly κ) {job : Job} {call : Call} {m m₁ : Machine κ}
    (hprepare : (prepare job).run { m with inTask := true } = (.ok (.inr call), m₁))
    (hover : Stage.after (coroutine.resume (.fresh (.job job)) m).1 = (.over : Stage TaskState))
    {places : String → Location} (hat : m₁.disk.AreAt call.capture.paths places) :
    ∃ before, m₁.disk.Opens before ∧ Settles call places before
      (coroutine.resume (.fresh (.job job)) m).2.disk
      (coroutine.resume (.fresh (.job job)) m).1 := by
  rcases begun_resume hload job m with
    ⟨_, _, -, -, -, hnone⟩ | ⟨other, m₂, outcome, hother, -, hbegun, hrun⟩
  · exact absurd (resultOf_of_run hprepare) (hnone call)
  · rw [hprepare] at hother
    cases hother
    rw [hrun] at hover ⊢
    cases hbegun with
    | suspended => cases hover
    | @finished result code m₃ _ _ hend hopens hcollect =>
        rw [run_collect (hat.of_opens hopens) code] at hcollect
        cases hcollect
        refine ⟨m₃.disk, hopens, fun path hpath => hend.removed hat hpath, fun result hresult => ?_⟩
        cases hresult
        exact ⟨code, rfl⟩
    | failed hend =>
        refine ⟨m₁.disk, isFrame_opens.refl _, fun path hpath => hend.removed hat hpath,
          fun result hresult => ?_⟩
        cases hresult

/-! ## Later turns -/

/-- A turn of a waiting run leaves it waiting as before, or puts the directory back and removes the
files. -/
theorem stage_resume_waiting (waiting : Waiting) (m : Machine κ) :
    Stage.after (coroutine.resume (.waiting waiting) m).1 = .suspended (.waiting waiting) ∨
      Stage.after (coroutine.resume (.waiting waiting) m).1 = .over ∧
        (coroutine.resume (.waiting waiting) m).2.disk =
          (m.disk.backAt waiting.saved).without waiting.call.capture.paths := by
  obtain ⟨outcome, hwaited, hrun⟩ := waited_resume waiting m
  rw [hrun]
  cases hwaited with
  | suspended hquiet => exact Or.inl rfl
  | finished hbefore hcollect =>
      have hends : Ends waiting { m with inTask := true } _ :=
        .intro hbefore ((respects_collect _ _).of_run hcollect)
      exact Or.inr ⟨rfl, hends.disk⟩
  | failed hends => exact Or.inr ⟨rfl, hends.disk⟩

theorem disk_cancel_waiting (waiting : Waiting) (m : Machine κ) :
    (coroutine.cancel (.waiting waiting) m).disk =
      (m.disk.backAt waiting.saved).without waiting.call.capture.paths := by
  rw [cancel_eq]
  exact (ends_abandon waiting { m with inTask := true }).disk

theorem result_resume_waiting {waiting : Waiting} {m : Machine κ} {places : String → Location}
    (hat : (m.disk.backAt waiting.saved).AreAt waiting.call.capture.paths places)
    {result : JobResult}
    (hresult : (coroutine.resume (.waiting waiting) m).1 = .ok (.ended (.run result))) :
    ∃ code, result = waiting.call.wanted.result code
      (waiting.call.capture.texts m.disk places).1 (waiting.call.capture.texts m.disk places).2 := by
  obtain ⟨outcome, hwaited, hrun⟩ := waited_resume waiting m
  rw [hrun] at hresult
  have hkeep := hwaited
  cases hwaited with
  | suspended => cases hresult
  | finished =>
      cases hresult
      exact hkeep.result hat
  | failed => cases hresult

/-! ## Steps of a session -/

variable {session next : Session (Machine κ) TaskState} {index : Nat}

theorem over_step (htask : session.tasks index = some .over)
    (hstep : Session.Step coroutine world session next) : next.tasks index = some .over := by
  have hother : ∀ {i stage}, session.tasks i = some stage → stage ≠ .over → index ≠ i := by
    rintro i stage hi hstage rfl
    rw [htask, Option.some.injEq] at hi
    exact hstage hi.symm
  cases hstep with
  | begin hi => rw [Session.tasks_afterTurn_of_ne _ _ (hother hi nofun), htask]
  | resume hi => rw [Session.tasks_afterTurn_of_ne _ _ (hother hi nofun), htask]
  | cancel hi => rw [Session.tasks_afterCancel_of_ne _ _ (hother hi nofun), htask]
  | world => exact htask

/-- A step leaves a waiting run alone, or it is the one that ends it. -/
theorem waiting_step {waiting : Waiting}
    (htask : session.tasks index = some (.suspended (.waiting waiting)))
    (hstep : Session.Step coroutine world session next) :
    next.tasks index = some (.suspended (.waiting waiting)) ∨
      next.tasks index = some .over ∧ next.state.disk =
        (session.state.disk.backAt waiting.saved).without waiting.call.capture.paths := by
  cases hstep with
  | @begin i state hi =>
      have hindex : index ≠ i := by
        rintro rfl
        rw [htask] at hi
        cases hi
      rw [Session.tasks_afterTurn_of_ne _ _ hindex]
      exact Or.inl htask
  | @resume i state hi =>
      by_cases hindex : index = i
      · subst hindex
        rw [htask] at hi
        cases hi
        rw [Session.tasks_afterTurn_self]
        rcases stage_resume_waiting waiting session.state with hsame | ⟨hover, hdisk⟩
        · exact Or.inl (congrArg some hsame)
        · exact Or.inr ⟨congrArg some hover, hdisk⟩
      · rw [Session.tasks_afterTurn_of_ne _ _ hindex]
        exact Or.inl htask
  | @cancel i state hi =>
      by_cases hindex : index = i
      · subst hindex
        rw [htask] at hi
        cases hi
        rw [Session.tasks_afterCancel_self]
        exact Or.inr ⟨rfl, disk_cancel_waiting waiting session.state⟩
      · rw [Session.tasks_afterCancel_of_ne _ _ hindex]
        exact Or.inl htask
  | world => exact Or.inl htask

/-- A run waits through any number of calm steps, and the directories are kept all the while. -/
theorem waiting_calmly {waiting : Waiting}
    (htask : session.tasks index = some (.suspended (.waiting waiting)))
    (hhere : session.state.disk.cwd.Stands session.state.disk.tree)
    (hcalm : Calmly world session next) :
    (next.tasks index = some (.suspended (.waiting waiting)) ∨ next.tasks index = some .over) ∧
      session.state.disk.tree.KeepsDirectories next.state.disk.tree ∧
        next.state.disk.cwd.Stands next.state.disk.tree := by
  induction hcalm with
  | refl => exact ⟨Or.inl htask, .refl _, hhere⟩
  | tail _ hstep ih =>
      obtain ⟨hstage, hkept, -⟩ := ih
      refine ⟨?_, hkept.trans hstep.kept, hstep.here⟩
      rcases hstage with hwaits | hover
      · exact (waiting_step hwaits hstep.step).imp_right And.left
      · exact Or.inr (over_step hover hstep.step)

/-- The remembered directory is changed by what happens between turns, if at all, and by the `cd` of
a task. -/
theorem previous_step (hload : LoadsQuietly κ)
    (hstep : Session.Step coroutine world session next) :
    next.state.previous = session.state.previous ∨ world session.state next.state ∨
      ∃ index state, (session.tasks index = some (.idle state) ∨
        session.tasks index = some (.suspended state)) ∧
          Recalls { session.state with inTask := true } state.chores := by
  have hturn : ∀ {i : Nat} {state : TaskState},
      (session.tasks i = some (.idle state) ∨ session.tasks i = some (.suspended state)) →
        (session.afterTurn coroutine i state).state.previous = session.state.previous ∨
          ∃ index state, (session.tasks index = some (.idle state) ∨
            session.tasks index = some (.suspended state)) ∧
              Recalls { session.state with inTask := true } state.chores := by
    intro i state hi
    show (coroutine.resume state session.state).2.previous = _ ∨ _
    rw [resume_eq]
    rcases previous_turn hload state { session.state with inTask := true } with hsame | hrecalls
    · exact Or.inl hsame
    · exact Or.inr ⟨i, state, hi, hrecalls⟩
  cases hstep with
  | begin hi => exact (hturn (Or.inl hi)).imp_right Or.inr
  | resume hi => exact (hturn (Or.inr hi)).imp_right Or.inr
  | @cancel i state hi =>
      refine Or.inl ?_
      show (coroutine.cancel state session.state).previous = _
      rw [cancel_eq]
      exact (sameMemory_cancel state { session.state with inTask := true }).previous
  | world hworld => exact Or.inr (Or.inl hworld)

/-- A run that has waited is back where it was suspended first, and with it its files. -/
theorem ended_calmly {spawned last : Session (Machine κ) TaskState} {waiting : Waiting}
    (htask : spawned.tasks index = some (.suspended (.waiting waiting)))
    (hhere : spawned.state.disk.cwd.Stands spawned.state.disk.tree)
    (hsaved : spawned.state.disk.currentPath = .ok waiting.saved)
    (hshort : waiting.saved.utf8ByteSize < pathLimit) (hcalm : Calmly world spawned last)
    (hstep : CalmStep world last next) (hlast : last.tasks index ≠ some .over)
    (hover : next.tasks index = some .over) :
    next.state.disk.cwd = spawned.state.disk.cwd ∧
      ∀ places, spawned.state.disk.AreAt waiting.call.capture.paths places →
        spawned.state.disk.tree.KeepsWays last.state.disk.tree →
        (∀ path ∈ waiting.call.capture.paths,
          last.state.disk.tree.kindAt (places path) = some .file ∨
            last.state.disk.tree.kindAt (places path) = none) →
        Settles waiting.call places last.state.disk next.state.disk
          (coroutine.resume (.waiting waiting) last.state).1 := by
  obtain ⟨hstage, hkept, hthere⟩ := waiting_calmly htask hhere hcalm
  have hwaits := hstage.resolve_right hlast
  have hdisk : next.state.disk =
      (last.state.disk.backAt waiting.saved).without waiting.call.capture.paths := by
    rcases waiting_step hwaits hstep.step with hsame | ⟨-, hdisk⟩
    · rw [hsame] at hover
      cases hover
    · exact hdisk
  have hplace := hhere.of_keeps hkept
  have hback : (last.state.disk.backAt waiting.saved).cwd = spawned.state.disk.cwd :=
    Disk.cwd_backAt hplace hthere (Disk.currentPath_eq_ok.mp hsaved) hshort
  have hdir := hstep.kept _ hplace.found
  refine ⟨?_, fun places hat hways hfiles => ?_⟩
  · rw [hdisk, ← hback] at hdir
    rw [hdisk, Disk.cwd_without _ hdir, hback]
  · have hat' : (last.state.disk.backAt waiting.saved).AreAt waiting.call.capture.paths places := by
      refine ⟨fun path hpath => ?_, fun path hpath => ?_⟩
      · refine (hat.names path hpath).of_keeps ?_ hback
        rw [Disk.tree_backAt]
        exact hways
      · rw [Disk.tree_backAt]
        exact hfiles path hpath
    refine ⟨fun path hpath => ?_, fun result hresult => result_resume_waiting hat' hresult⟩
    rw [hdisk]
    exact kindAt_without hat' hpath

end Act

/-- A run that begins with the step from `session` to `spawned` ends where it began: at once, or
after any number of steps. -/
structure Returns (world : Machine κ → Machine κ → Prop)
    (session spawned : Session (Machine κ) TaskState) (index : Nat) (job : Job) : Prop where
  stays : spawned.state.disk.cwd = session.state.disk.cwd
  atOnce : spawned.tasks index = some .over → ∀ {call prepared places},
    (Act.prepare job).run { session.state with inTask := true } = (.ok (.inr call), prepared) →
    prepared.disk.AreAt call.capture.paths places →
      ∃ before, prepared.disk.Opens before ∧ Settles call places before spawned.state.disk
        (Act.coroutine.resume (.fresh (.job job)) session.state).1
  waits : ∀ {state}, spawned.tasks index = some (.suspended state) →
    ∃ waiting prepared, state = .waiting waiting ∧
      (Act.prepare job).run { session.state with inTask := true } =
        (.ok (.inr waiting.call), prepared) ∧
      spawned.state.disk.currentPath = .ok waiting.saved ∧
      ∀ path ∈ waiting.call.capture.paths, prepared.disk.IsPlain path →
        ∃ location, spawned.state.disk.HasFile path location
  returns : ∀ {waiting}, spawned.tasks index = some (.suspended (.waiting waiting)) →
    waiting.saved.utf8ByteSize < pathLimit → ∀ {last next}, Calmly world spawned last →
      CalmStep world last next → last.tasks index ≠ some .over → next.tasks index = some .over →
        next.state.disk.cwd = session.state.disk.cwd ∧
          ∀ places, spawned.state.disk.AreAt waiting.call.capture.paths places →
            spawned.state.disk.tree.KeepsWays last.state.disk.tree →
            (∀ path ∈ waiting.call.capture.paths,
              last.state.disk.tree.kindAt (places path) = some .file ∨
                last.state.disk.tree.kindAt (places path) = none) →
            Settles waiting.call places last.state.disk next.state.disk
              (Act.coroutine.resume (.waiting waiting) last.state).1

/-- Time passes, and the programs go on. -/
def Lapses (m m' : Machine κ) : Prop := ∃ ticks, m' = m.elapse ticks

namespace Act

theorem returns_of_begin (hload : LoadsQuietly κ) {session : Session (Machine κ) TaskState}
    {index : Nat} {job : Job}
    (hhere : session.state.disk.cwd.Stands session.state.disk.tree)
    (hcalm : CalmStep world session (session.afterTurn coroutine index (.fresh (.job job)))) :
    Returns world session (session.afterTurn coroutine index (.fresh (.job job))) index job := by
  have hself := Session.tasks_afterTurn_self coroutine session index (.fresh (.job job))
  have hstays : (session.afterTurn coroutine index (.fresh (.job job))).state.disk.cwd =
      session.state.disk.cwd := cwd_resume_job hload job hhere.found hcalm.kept
  have hsuspended : ∀ {state}, (session.afterTurn coroutine index (.fresh (.job job))).tasks index =
      some (.suspended state) →
        Stage.after (coroutine.resume (.fresh (.job job)) session.state).1 = .suspended state :=
    fun htask => Option.some.inj (hself.symm.trans htask)
  refine ⟨hstays, ?_, ?_, ?_⟩
  · intro hover call prepared places hprepare hat
    exact settles_resume_job hload hprepare (Option.some.inj (hself.symm.trans hover)) hat
  · intro state htask
    obtain ⟨waiting, prepared, hstate, hprepare, hsaved, -, hfiles⟩ :=
      suspended_resume_job hload hhere.found (hsuspended htask)
    exact ⟨waiting, prepared, hstate, hprepare, hsaved, hfiles⟩
  · intro waiting htask hshort last next hreaches hstep hlast hover
    obtain ⟨waiting', -, hstate, -, hsaved, -⟩ :=
      suspended_resume_job hload hhere.found (hsuspended htask)
    cases hstate
    rw [← hstays]
    exact ended_calmly htask hcalm.here hsaved hshort hreaches hstep hlast hover

/-! ## A run and one other task -/

/-- A first turn that does not end the run is calm. -/
theorem calmStep_of_suspended {session : Session (Machine κ) TaskState} {index : Nat}
    (hload : LoadsQuietly κ) {job : Job} {waiting : Waiting}
    (htask : session.tasks index = some (.idle (.fresh (.job job))))
    (hhere : session.state.disk.cwd.Stands session.state.disk.tree)
    (hwaits : Stage.after (coroutine.resume (.fresh (.job job)) session.state).1 =
      .suspended (.waiting waiting)) :
    CalmStep world session (session.afterTurn coroutine index (.fresh (.job job))) := by
  obtain ⟨_, _, -, -, -, hways, -⟩ := suspended_resume_job hload hhere.found hwaits
  have hkept : session.state.disk.tree.KeepsDirectories
      (session.afterTurn coroutine index (.fresh (.job job))).state.disk.tree :=
    fun location hdir => hways location .directory trivial hdir
  refine ⟨.begin htask, hkept, ?_⟩
  have hstays : (session.afterTurn coroutine index (.fresh (.job job))).state.disk.cwd =
      session.state.disk.cwd := cwd_resume_job hload job hhere.found hkept
  rw [hstays]
  exact hhere.of_keeps hkept

theorem resume_after (chores : List Chore) {m : Machine κ} {settings : Settings}
    (hsettings : Settings.read m.environment = .ok settings) :
    coroutine.resume (.fresh (.after chores)) m =
      (.ok (.paused settings.pollDelay (.choring chores)), m) := by
  have hrun : (turn (.fresh (.after chores)) : Act κ (Progress TaskState TaskResult)).run
      { m with inTask := true } =
        (.ok (.paused settings.pollDelay (.choring chores)), { m with inTask := true }) := by
    unfold turn suspension
    rw [run_bind, run_bind, run_settings, hsettings]
    rfl
  rw [resume_eq, resultOf, stateAfter, hrun]

theorem tree_resume_entering (directory : String) (m : Machine κ) :
    (coroutine.resume (.choring [.enter directory]) m).2.disk.tree = m.disk.tree := by
  have hR : IsFrame (Filing Disk.Moves : Machine κ → Machine κ → Prop) := isFrame_filing isFrame_moves
  have hchores : Respects (Filing Disk.Moves)
      ([Chore.enter directory].forM runChore : Act κ PUnit) := by
    refine respects_forM hR fun chore hchore => ?_
    rw [List.mem_singleton] at hchore
    subst hchore
    exact respects_enter directory
  have hturn : Respects (Filing Disk.Moves)
      (turn (.choring [.enter directory]) : Act κ (Progress TaskState TaskResult)) :=
    respects_bind hR hchores fun _ => respects_pure hR _
  rw [resume_eq]
  exact (hturn { m with inTask := true }).disk.tree

/-- A run that has a handle after its first turn waits for the call that was prepared. -/
theorem waits_of_handle (hload : LoadsQuietly κ) {job : Job} {m : Machine κ} {waiting : Waiting}
    (hhere : m.disk.tree.kindAt m.disk.cwd.base = some .directory)
    (hhandle : (Stage.after (coroutine.resume (.fresh (.job job)) m).1).handle? =
      some waiting.handle)
    (hcall : resultOf (prepare job) { m with inTask := true } = .ok (.inr waiting.call))
    (hsaved : (coroutine.resume (.fresh (.job job)) m).2.disk.currentPath = .ok waiting.saved) :
    Stage.after (coroutine.resume (.fresh (.job job)) m).1 = .suspended (.waiting waiting) := by
  cases hstage : Stage.after (coroutine.resume (.fresh (.job job)) m).1 with
  | idle state => simp [hstage, Stage.handle?] at hhandle
  | «over» => simp [hstage, Stage.handle?] at hhandle
  | suspended state =>
      obtain ⟨other, prepared, rfl, hprepare, hcurrent, -, -⟩ :=
        suspended_resume_job hload hhere hstage
      rw [hstage, Stage.handle?, TaskState.handle?, Option.some.injEq] at hhandle
      rw [resultOf_of_run hprepare, Except.ok.injEq, Sum.inr.injEq] at hcall
      rw [hcurrent, Except.ok.injEq] at hsaved
      obtain ⟨call, handle, saved⟩ := other
      obtain ⟨call', handle', saved'⟩ := waiting
      dsimp only at hhandle hcall hsaved
      rw [hhandle, hcall, hsaved]

/-- A session of a run and of a task that does a chore after the run has begun. -/
def besideChore (m : Machine κ) (job : Job) (chore : Chore) : Session (Machine κ) TaskState :=
  .ofTasks [.fresh (.job job), .fresh (.after [chore])] m

/-- The session when the run is suspended. -/
def beforeChore (m : Machine κ) (job : Job) (chore : Chore) : Session (Machine κ) TaskState :=
  (besideChore m job chore).afterTurn coroutine 0 (.fresh (.job job))

/-- The session when the run is still suspended and the chore has been done. -/
def afterChore (m : Machine κ) (job : Job) (chore : Chore) : Session (Machine κ) TaskState :=
  ((beforeChore m job chore).afterTurn coroutine 1 (.fresh (.after [chore]))).afterTurn coroutine 1
    (.choring [chore])

section

variable {m : Machine κ} {job : Job} {waiting : Waiting} {directory : String}

theorem tasks_beforeChore
    (hwaits : Stage.after (coroutine.resume (.fresh (.job job)) m).1 =
      .suspended (.waiting waiting)) (chore : Chore) :
    (beforeChore m job chore).tasks 0 = some (.suspended (.waiting waiting)) := by
  rw [beforeChore, Session.tasks_afterTurn_self]
  exact congrArg some hwaits

theorem tasks_afterChore
    (hwaits : Stage.after (coroutine.resume (.fresh (.job job)) m).1 =
      .suspended (.waiting waiting)) (chore : Chore) :
    (afterChore m job chore).tasks 0 = some (.suspended (.waiting waiting)) := by
  rw [afterChore, Session.tasks_afterTurn_of_ne _ _ (by decide),
    Session.tasks_afterTurn_of_ne _ _ (by decide)]
  exact tasks_beforeChore hwaits chore

variable (hload : LoadsQuietly κ)

include hload

/-- The other task suspends at first and changes nothing. -/
theorem suspended_beforeChore {settings : Settings}
    (hsettings : Settings.read m.environment = .ok settings) (chore : Chore) :
    let between := (beforeChore m job chore).afterTurn coroutine 1 (.fresh (.after [chore]))
    Session.Step coroutine world (beforeChore m job chore) between ∧
      between.state = (beforeChore m job chore).state ∧
        between.tasks 1 = some (.suspended (.choring [chore])) := by
  have henvironment : (beforeChore m job chore).state.environment = m.environment :=
    environment_resume hload (.fresh (.job job)) m
  have hrun := @resume_after κ _ [chore] (beforeChore m job chore).state settings
    (henvironment ▸ hsettings)
  have hidle : (beforeChore m job chore).tasks 1 = some (.idle (.fresh (.after [chore]))) := by
    rw [beforeChore, Session.tasks_afterTurn_of_ne _ _ (by decide)]
    rfl
  refine ⟨.begin hidle, ?_, ?_⟩
  · show (coroutine.resume _ _).2 = _
    rw [hrun]
  · rw [Session.tasks_afterTurn_self, hrun]
    rfl

theorem tree_afterChore {settings : Settings}
    (hsettings : Settings.read m.environment = .ok settings) :
    (afterChore m job (.enter directory)).state.disk.tree =
      (beforeChore m job (.enter directory)).state.disk.tree := by
  obtain ⟨-, hbetween, -⟩ :=
    @suspended_beforeChore κ _ (fun _ _ => True) m job hload settings hsettings (.enter directory)
  rw [← hbetween]
  exact tree_resume_entering directory _

/-- Going to a directory that stands is calm. -/
theorem calmly_afterChore {settings : Settings} (hhere : m.disk.cwd.Stands m.disk.tree)
    (hwaits : Stage.after (coroutine.resume (.fresh (.job job)) m).1 =
      .suspended (.waiting waiting))
    (hsettings : Settings.read m.environment = .ok settings)
    (hthere : (afterChore m job (.enter directory)).state.disk.cwd.Stands
      (afterChore m job (.enter directory)).state.disk.tree) :
    CalmStep world (besideChore m job (.enter directory)) (beforeChore m job (.enter directory)) ∧
      Calmly world (beforeChore m job (.enter directory)) (afterChore m job (.enter directory)) := by
  have hfirst : CalmStep world (besideChore m job (.enter directory))
      (beforeChore m job (.enter directory)) := calmStep_of_suspended hload rfl hhere hwaits
  obtain ⟨hbegin, hbetween, hsuspended⟩ :=
    @suspended_beforeChore κ _ world m job hload settings hsettings (.enter directory)
  refine ⟨hfirst, .tail (.single (.of_tree hbegin (by rw [hbetween]) ?_))
    (.of_tree (.resume hsuspended) (tree_resume_entering directory _) hthere)⟩
  rw [hbetween]
  exact hfirst.here

end

/-- Nothing but a turn changes the disk. -/
def SameDisk (m m' : Machine κ) : Prop := m'.disk = m.disk

section

variable {m : Machine Pause} {job : Job} {waiting : Waiting} {handle : Handle}
  {settings : Settings}

/-- The session when the other task has gone to the root of the disk and the program has ended. -/
def endedAway (m : Machine Pause) (job : Job) : Session (Machine Pause) TaskState where
  tasks := (afterChore m job (.enter "/")).tasks
  state := { (afterChore m job (.enter "/")).state with programs := [⟨0⟩] }

/-- The session when the run is over. -/
def overAway (m : Machine Pause) (job : Job) (waiting : Waiting) :
    Session (Machine Pause) TaskState :=
  (endedAway m job).afterTurn coroutine 0 (.waiting waiting)

theorem tasks_endedAway
    (hwaits : Stage.after (coroutine.resume (.fresh (.job job)) m).1 =
      .suspended (.waiting waiting)) :
    (endedAway m job).tasks 0 = some (.suspended (.waiting waiting)) := by
  have htasks : (endedAway m job).tasks = (afterChore m job (.enter "/")).tasks := rfl
  rw [htasks]
  exact tasks_afterChore hwaits (.enter "/")

theorem tree_endedAway (hsettings : Settings.read m.environment = .ok settings) :
    (endedAway m job).state.disk.tree = (beforeChore m job (.enter "/")).state.disk.tree := by
  have hdisk : (endedAway m job).state.disk = (afterChore m job (.enter "/")).state.disk := rfl
  rw [hdisk]
  exact tree_afterChore loadsQuietly_pause hsettings

theorem calmly_endedAway (hhere : m.disk.cwd.Stands m.disk.tree)
    (hwaits : Stage.after (coroutine.resume (.fresh (.job job)) m).1 =
      .suspended (.waiting waiting))
    (hsettings : Settings.read m.environment = .ok settings)
    (hroot : (endedAway m job).state.disk.cwd = .root) :
    CalmStep SameDisk (besideChore m job (.enter "/")) (beforeChore m job (.enter "/")) ∧
      Calmly SameDisk (beforeChore m job (.enter "/")) (endedAway m job) ∧
        (endedAway m job).state.disk.cwd.Stands (endedAway m job).state.disk.tree := by
  have hfirst : CalmStep SameDisk (besideChore m job (.enter "/"))
      (beforeChore m job (.enter "/")) := calmStep_of_suspended loadsQuietly_pause rfl hhere hwaits
  have hthere : (endedAway m job).state.disk.cwd.Stands (endedAway m job).state.disk.tree := by
    rw [hroot, tree_endedAway hsettings]
    exact ⟨rfl, kindAt_root (hfirst.here.found), by simp [Place.root]⟩
  obtain ⟨-, hleft⟩ :=
    @calmly_afterChore Pause _ SameDisk m job waiting "/" loadsQuietly_pause settings hhere hwaits
      hsettings hthere
  have hworld : Session.Step coroutine SameDisk (afterChore m job (.enter "/"))
      (endedAway m job) := .world rfl
  exact ⟨hfirst, hleft.tail (.of_tree hworld rfl hthere), hthere⟩

/-- Once its program has ended, the next turn of the run is its last. -/
theorem disk_overAway
    (hwaits : Stage.after (coroutine.resume (.fresh (.job job)) m).1 =
      .suspended (.waiting waiting))
    (hwatches : (endedAway m job).state.Watches waiting.handle 0 handle) :
    Session.Step coroutine SameDisk (endedAway m job) (overAway m job waiting) ∧
      (overAway m job waiting).tasks 0 = some .over ∧ (overAway m job waiting).state.disk =
        ((endedAway m job).state.disk.backAt waiting.saved).without waiting.call.capture.paths := by
  have hover : Stage.after (coroutine.resume (.waiting waiting) (endedAway m job).state).1 =
      (.over : Stage TaskState) := by
    obtain ⟨outcome, houtcome⟩ := resume_waiting_of_ended hwatches (by nofun)
    rw [houtcome]
    cases outcome with
    | _ => rfl
  have htask := tasks_endedAway hwaits
  refine ⟨?_, ?_, ?_⟩
  · unfold overAway
    exact .resume htask
  · rw [overAway, Session.tasks_afterTurn_self, hover]
  · rcases stage_resume_waiting waiting (endedAway m job).state with hsame | ⟨-, hdisk⟩
    · rw [hover] at hsame
      cases hsame
    · simp only [overAway, Session.afterTurn]
      exact hdisk

/-- Going back and removing files is calm. -/
theorem calmStep_overAway (hhere : m.disk.cwd.Stands m.disk.tree)
    (hwaits : Stage.after (coroutine.resume (.fresh (.job job)) m).1 =
      .suspended (.waiting waiting))
    (hsettings : Settings.read m.environment = .ok settings)
    (hroot : (endedAway m job).state.disk.cwd = .root)
    (hwatches : (endedAway m job).state.Watches waiting.handle 0 handle)
    (hsaved : (beforeChore m job (.enter "/")).state.disk.currentPath = .ok waiting.saved)
    (hshort : waiting.saved.utf8ByteSize < pathLimit) {places : String → Location}
    (hat : (beforeChore m job (.enter "/")).state.disk.AreAt waiting.call.capture.paths places) :
    CalmStep SameDisk (endedAway m job) (overAway m job waiting) := by
  obtain ⟨hbegin, -, hthere⟩ := calmly_endedAway hhere hwaits hsettings hroot
  obtain ⟨hstep, -, hdisk⟩ := disk_overAway hwaits hwatches
  have htree := @tree_endedAway m job settings hsettings
  have hplace : (beforeChore m job (.enter "/")).state.disk.cwd.Stands
      (endedAway m job).state.disk.tree := by
    rw [htree]
    exact hbegin.here
  have hback : ((endedAway m job).state.disk.backAt waiting.saved).cwd =
      (beforeChore m job (.enter "/")).state.disk.cwd :=
    Disk.cwd_backAt hplace hthere (Disk.currentPath_eq_ok.mp hsaved) hshort
  have hkept : (endedAway m job).state.disk.tree.KeepsDirectories
      (overAway m job waiting).state.disk.tree := by
    intro directory hdirectory
    rw [hdisk]
    refine keepsWays_without (hat.congr ((Disk.tree_backAt _ _).trans htree) hback) directory
      .directory trivial ?_
    rw [Disk.tree_backAt]
    exact hdirectory
  have hstays : (overAway m job waiting).state.disk.cwd =
      (beforeChore m job (.enter "/")).state.disk.cwd := by
    have hfound := hkept _ hplace.found
    rw [hdisk, ← hback] at hfound
    rw [hdisk, Disk.cwd_without _ hfound, hback]
  refine ⟨hstep, hkept, ?_⟩
  rw [hstays]
  exact hplace.of_keeps hkept

end

/-- A machine at work, whose directory for temporary files is given by a relative path. -/
def workMachine : Machine Pause where
  disk :=
    { tree := .dir [("work", .dir [("scratch", .dir [] none), ("link", .link "scratch")] none)] none
      cwd := ⟨["work"], []⟩ }
  environment := [(tmpdirVariable, "link")]

def workLog : String := "link/.buildos/00000000000000000000000000000000"

/-- A run that waits at work. -/
def workWaiting : Waiting where
  call :=
    { wanted := .output, program := "pause", argv := [], capture := .joined workLog
      out := .path workLog, err := .path workLog }
  handle := 0
  saved := "/work"

def shortRun : Job := { wanted := .output, target := .program "pause" [] }

theorem stands_workMachine : workMachine.disk.cwd.Stands workMachine.disk.tree := by
  refine ⟨rfl, by decide, fun name hname => ?_⟩
  obtain rfl : name = "work" := List.mem_singleton.mp hname
  exact ⟨(Path.isName_iff _).mpr (by decide), by decide, by decide⟩

theorem waits_workMachine :
    Stage.after (coroutine.resume (.fresh (.job shortRun)) workMachine).1 =
      .suspended (.waiting workWaiting) :=
  @waits_of_handle Pause _ loadsQuietly_pause shortRun workMachine workWaiting
    stands_workMachine.found (by decide +kernel) (by decide +kernel) (by decide +kernel)

theorem watches_workMachine : (endedAway workMachine shortRun).state.Watches workWaiting.handle 0
    { program := "pause", source := .program 0, owned := [0] } :=
  ⟨by decide +kernel, rfl, rfl⟩

theorem hasFile_workWaits {world : Machine Pause → Machine Pause → Prop}
    (hreturns : Returns world (besideChore workMachine shortRun (.enter "/"))
      (beforeChore workMachine shortRun (.enter "/")) 0 shortRun) :
    ∃ location, (beforeChore workMachine shortRun (.enter "/")).state.disk.HasFile workLog
      location := by
  obtain ⟨waiting, prepared, hstate, hprepare, -, hfiles⟩ :=
    hreturns.waits (tasks_beforeChore waits_workMachine (.enter "/"))
  cases hstate
  refine hfiles workLog (by simp [workWaiting, Capture.paths]) fun location hnames => Or.inr ?_
  have hprepared : stateAfter (prepare shortRun) { workMachine with inTask := true } = prepared :=
    stateAfter_of_run hprepare
  have hplace : ((stateAfter (prepare shortRun) { workMachine with inTask := true }).disk.tip
      workLog).toOption.map Prod.fst = some ⟨["work", "scratch", ".buildos"], []⟩ := by
    decide
  have hlast : (pathNames workLog).getLast? = some "00000000000000000000000000000000" := by
    decide
  have hfree : (stateAfter (prepare shortRun) { workMachine with inTask := true }).disk.tree.kindAt
      ["work", "scratch", ".buildos", "00000000000000000000000000000000"] = none := by
    decide
  rw [hprepared] at hplace hfree
  obtain ⟨parent, name, rfl, -, -, hentry, htip⟩ := hnames.tip
  rw [hentry.last, Option.some.injEq] at hlast
  subst hlast
  rw [htip] at hplace
  cases hplace
  exact hfree

/-- A name of a number of letters. -/
def longName (size : Nat) : String := String.ofList (List.replicate size 'a')

theorem utf8ByteSize_longName (size : Nat) : (longName size).utf8ByteSize = size := by
  induction size with
  | zero => rfl
  | succ size ih =>
      have hletter : (String.singleton 'a').utf8ByteSize = 1 := rfl
      rw [longName] at ih ⊢
      rw [List.replicate_succ, String.ofList_cons, String.utf8ByteSize_append, hletter, ih,
        Nat.add_comm]

theorem isAccepted_longName {size : Nat} (hlow : 2 < size) (hhigh : size ≤ greatestName) :
    IsAccepted (longName size) := by
  have hletters : (longName size).toList = List.replicate size 'a' := String.toList_ofList
  have hne : ∀ name : List Char, name.length ≤ 2 → (longName size).toList ≠ name := by
    rintro name hname rfl
    rw [hletters, List.length_replicate] at hname
    omega
  refine ⟨(Path.isName_iff _).mpr ⟨hne _ (by simp), ?_, hne _ (by simp), hne _ (by simp)⟩, ?_, ?_⟩
  · simp [hletters]
  · simp [hletters]
  · rwa [utf8ByteSize_longName]

/-- The location of a directory whose path is longer than the system accepts. -/
def deepLocation : Location := List.replicate 17 (longName 250)

def deepPath : String := "/" ++ String.intercalate "/" deepLocation

def deepMachine : Machine Pause where
  disk :=
    { tree := deepLocation.foldr (fun name node => .dir [(name, node)] none) (.dir [] none)
      cwd := ⟨deepLocation, []⟩ }
  environment := []

def plainRun : Job := { wanted := .status, target := .program "pause" [] }

def deepWaiting : Waiting where
  call :=
    { wanted := .status, program := "pause", argv := [], capture := .nowhere, out := .inherit
      err := .inherit }
  handle := 0
  saved := deepPath

/-- A tree with one directory inside the other holds the innermost one. -/
theorem kindAt_nested (names : List String) :
    (names.foldr (fun name node => .dir [(name, node)] none) (.dir [] none) : Node).kindAt names =
      some .directory := by
  have hget : ∀ names : List String,
      (names.foldr (fun name node => .dir [(name, node)] none) (.dir [] none) : Node).get? names =
        some (.dir [] none) := by
    intro names
    induction names with
    | nil => rfl
    | cons name names ih =>
        rw [List.foldr_cons, Node.get?, Node.entries, List.lookup_cons_self]
        exact ih
  rw [Node.kindAt, hget]
  rfl

theorem stands_deepMachine : deepMachine.disk.cwd.Stands deepMachine.disk.tree := by
  refine ⟨rfl, kindAt_nested deepLocation, fun name hname => ?_⟩
  rw [List.eq_of_mem_replicate hname]
  exact isAccepted_longName (by decide) (by decide)

theorem le_utf8ByteSize_intercalate {names : List String} {size : Nat}
    (hnames : ∀ name ∈ names, size ≤ name.utf8ByteSize) :
    names.length * size ≤ (String.intercalate "/" names).utf8ByteSize := by
  induction names with
  | nil => simp
  | cons name names ih =>
      have hname := hnames name List.mem_cons_self
      have hrest := ih fun other hother => hnames other (List.mem_cons_of_mem _ hother)
      cases names with
      | nil => simpa using hname
      | cons next names =>
          rw [String.intercalate_cons_cons, String.utf8ByteSize_append, String.utf8ByteSize_append,
            List.length_cons, Nat.succ_mul]
          omega

theorem pathLimit_le_deepPath : pathLimit ≤ deepPath.utf8ByteSize := by
  have hsize : 17 * 250 ≤ (String.intercalate "/" deepLocation).utf8ByteSize := by
    refine @le_utf8ByteSize_intercalate deepLocation 250 fun name hname => ?_
    rw [List.eq_of_mem_replicate hname, utf8ByteSize_longName]
  rw [deepPath, String.utf8ByteSize_append]
  exact Nat.le_trans (by decide) (Nat.le_trans hsize (Nat.le_add_left _ _))

theorem currentPath_deepMachine {d : Disk} (hcwd : d.cwd = deepMachine.disk.cwd) :
    d.currentPath = .ok deepPath := by
  rw [Disk.currentPath_eq_ok, hcwd]
  exact Place.path?_eq rfl

theorem waits_deepMachine :
    Stage.after (coroutine.resume (.fresh (.job plainRun)) deepMachine).1 =
      .suspended (.waiting deepWaiting) := by
  refine @waits_of_handle Pause _ loadsQuietly_pause plainRun deepMachine deepWaiting
    stands_deepMachine.found (by decide) rfl (currentPath_deepMachine ?_)
  rfl

theorem watches_deepMachine : (endedAway deepMachine plainRun).state.Watches deepWaiting.handle 0
    { program := "pause", source := .program 0, owned := [] } :=
  ⟨by decide, rfl, rfl⟩

end Act
end BuildRunner
