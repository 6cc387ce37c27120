import BuildRunner.Proofs.Console.Reports
import BuildRunner.Proofs.Execution.FirstTurns
import BuildRunner.Proofs.Schedule.Interleaving
import BuildRunner.Proofs.Schedule.Patience
import BuildRunner.Proofs.Schedule.Programs

/-!
# Commands that run together

Commands that run as tasks of one pool come to verdicts, all of them, and are reported in their
order.  It takes programs that end, and that leave the current directory and the scratch directory
in place: a run that begins to wait asks for the path of the current directory, and where there is
none the failure ends all the runs.
-/

namespace BuildRunner

open BuildRunner.Schedule Act

variable {κ : Type}

/-! ## Runs that wait while others go on -/

/-- The handle of a task that is suspended. -/
def Schedule.Status.handle? (status : Status TaskState TaskResult Failure) : Option Nat :=
  status.task?.bind TaskState.handle?

namespace Waiting.Awaits

variable {waiting : Waiting} {base : String} {m m' : Machine κ} {index : Nat}

theorem handle_lt (hawaits : waiting.Awaits base m index) : waiting.handle < m.handles.length := by
  obtain ⟨handle, hwatches⟩ := hawaits.watches
  exact (List.getElem?_eq_some_iff.mp hwatches.found).1

theorem of_watched (hawaits : waiting.Awaits base m index)
    (hprograms : m.programs.length ≤ m'.programs.length)
    (hhandle : m'.handles[waiting.handle]? = m.handles[waiting.handle]?) :
    waiting.Awaits base m' index := by
  obtain ⟨handle, hwatches⟩ := hawaits.watches
  exact ⟨hawaits.wanted, hawaits.capture, hawaits.saved,
    Nat.lt_of_lt_of_le hawaits.running hprograms, handle, hhandle.trans hwatches.found,
    hwatches.source, hwatches.isOpen⟩

theorem grows {taken : Nat} (hawaits : waiting.Awaits base m index) (hgrows : Grows taken m m') :
    waiting.Awaits base m' index := by
  refine hawaits.of_watched hgrows.programs.length_le ?_
  obtain ⟨more, hmore⟩ := hgrows.handles
  rw [← hmore, List.getElem?_append_left hawaits.handle_lt]

theorem closesHandle {id : Nat} (hawaits : waiting.Awaits base m index)
    (hcloses : ClosesHandle id m m') (hne : id ≠ waiting.handle) :
    waiting.Awaits base m' index := by
  obtain ⟨handle, hhandles⟩ := hcloses.handles
  refine hawaits.of_watched (Nat.le_of_eq (congrArg List.length hcloses.programs.symm)) ?_
  rw [hhandles, List.getElem?_set_ne hne]

variable [Program κ]

theorem elapse (hawaits : waiting.Awaits base m index) (ticks : Nat) :
    waiting.Awaits base (m.elapse ticks) index := by
  refine hawaits.of_watched ?_ (by rw [Machine.handles_elapse])
  exact Nat.le_of_eq (Machine.length_programs_elapse ticks m).symm

end Waiting.Awaits

/-! ## The turns of a command -/

/-- How far the run of a command has come; `tried` tells that it was tried to start its program. -/
inductive Standing (base : String) (tried : Prop) (m : Machine κ) (command : String) :
    Status TaskState TaskResult Failure → Prop
  | fresh : Standing base tried m command (.fresh (.fresh (.job (.ofCommand command))))
  | waits {waiting : Waiting} {index : Nat} (htried : tried)
      (hawaits : waiting.Awaits base m index) :
      Standing base tried m command (.suspended (.waiting waiting))
  | invalid (hparse : Command.parse command = none) :
      Standing base tried m command (.ended (.ok (.run (.verdict (invalidVerdict command)))))
  | ended {errors : Option String} (htried : tried) :
      Standing base tried m command (.ended (.ok (.run (.verdict errors))))

namespace Standing

variable {base command : String} {tried tried' : Prop} {m m' : Machine κ}
  {status : Status TaskState TaskResult Failure}

theorem handle_lt (hstanding : Standing base tried m command status) {id : Nat}
    (hid : status.handle? = some id) : id < m.handles.length := by
  cases hstanding with
  | fresh => cases hid
  | waits _ hawaits =>
      cases hid
      exact hawaits.handle_lt
  | invalid _ => cases hid
  | ended _ => cases hid

/-- A run stands where it did if it can still wait. -/
theorem of_awaits (hstanding : Standing base tried m command status) (hmore : tried → tried')
    (hstill : ∀ {waiting : Waiting} {index : Nat}, status.handle? = some waiting.handle →
      waiting.Awaits base m index → waiting.Awaits base m' index) :
    Standing base tried' m' command status := by
  cases hstanding with
  | fresh => exact .fresh
  | waits htried hawaits => exact .waits (hmore htried) (hstill rfl hawaits)
  | invalid hparse => exact .invalid hparse
  | ended htried => exact .ended (hmore htried)

end Standing

/-- What the turn of a command's task leaves behind: `task` is where the run stood, and `taken` is
the number of scratch names that it may take. -/
structure Advances (base : String) (tried : Prop) (command : String) (task : TaskState)
    (taken : Nat) (m : Machine κ) (result : Except Failure (Progress TaskState TaskResult))
    (m' : Machine κ) : Prop where
  place : m'.disk.InPlace base
  environment : m'.environment = m.environment
  out : m'.out = m.out
  scratch : m'.scratch ≤ m.scratch + taken
  others : ∀ {waiting : Waiting} {index : Nat}, task.handle? ≠ some waiting.handle →
    waiting.Awaits base m index → waiting.Awaits base m' index
  standing : Standing base tried m' command (.after result)
  handle : ∀ id, (Status.after result : Status TaskState TaskResult Failure).handle? = some id →
    task.handle? = some id ∨ m.handles.length ≤ id
  delay : Outcome.of result ≠ .paused none

namespace Act

variable [Program κ] {base command : String} {tried : Prop} {m : Machine κ}
  {settings : Settings}

theorem advances_of_firstTurn {delay : Option Nat} (hdelay : delay ≠ none)
    (hplace : m.disk.InPlace base) (htried : m.Tries command → tried)
    {outcome : Except Failure (Progress TaskState TaskResult) × Machine κ}
    (hfirst : FirstTurn base command delay m outcome) :
    Advances base tried command (.fresh (.job (.ofCommand command))) 1 m outcome.1 outcome.2 := by
  cases hfirst with
  | invalid hparse =>
      refine ⟨hplace, rfl, rfl, Nat.le_succ _, fun _ hawaits => hawaits, .invalid hparse, ?_, ?_⟩
      · rintro id ⟨⟩
      · rintro ⟨⟩
  | ended htries hgrows hplace' =>
      refine ⟨hplace', hgrows.environment, hgrows.out, hgrows.scratch,
        fun _ hawaits => hawaits.grows hgrows, .ended (htried htries), ?_, ?_⟩
      · rintro id ⟨⟩
      · rintro ⟨⟩
  | waits htries hgrows hplace' hawaits hnew =>
      refine ⟨hplace', hgrows.environment, hgrows.out, hgrows.scratch,
        fun _ hother => hother.grows hgrows, .waits (htried htries) hawaits, ?_, ?_⟩
      · rintro id ⟨⟩
        exact Or.inr hnew
      · exact fun hpaused => hdelay (Outcome.paused.inj hpaused)

theorem advances_of_awaits (command : String) (hshown : AnswersShown κ) (hbase : FitsScratch base)
    (hsettings : Settings.read m.environment = .ok settings) (hdelay : settings.pollDelay ≠ none)
    (hplace : m.disk.InPlace base) (htried : tried) {waiting : Waiting} {index : Nat}
    (hawaits : waiting.Awaits base m index) :
    Advances base tried command (.waiting waiting) 0 m (coroutine.resume (.waiting waiting) m).1
      (coroutine.resume (.waiting waiting) m).2 := by
  rcases resume_awaiting hshown hbase hplace hsettings hawaits with
    ⟨-, hresume⟩ | ⟨errors, m', hresume, hcloses, hplace'⟩
  · rw [hresume]
    refine ⟨hplace, rfl, rfl, Nat.le_refl _, fun _ hother => hother, .waits htried hawaits, ?_, ?_⟩
    · rintro id ⟨⟩
      exact Or.inl rfl
    · exact fun hpaused => hdelay (Outcome.paused.inj hpaused)
  · rw [hresume]
    refine ⟨hplace', hcloses.environment, hcloses.out, Nat.le_of_eq hcloses.scratch, ?_,
      .ended htried, ?_, ?_⟩
    · intro other index hne hother
      exact hother.closesHandle hcloses fun hsame => hne (congrArg some hsame)
    · rintro id ⟨⟩
    · rintro ⟨⟩

end Act

/-! ## Courses of commands -/

/-- A task that has yet to take its first turn is none of those that have begun. -/
theorem Schedule.Lined.le_of_fresh {τ ρ ε : Type} {limit : Option Nat} {pool : Pool τ ρ ε}
    {called : List Nat} {begun handed asked i : Nat} {status : Status τ ρ ε} {task : τ}
    (hlined : Lined limit pool called begun handed asked) (hstatus : pool.tasks[i]? = some status)
    (hfresh : status.plain = .fresh task) : begun ≤ i := by
  by_contra hlt
  have hphase := hlined.phase hstatus
  rw [phaseAt, if_pos (Nat.lt_of_not_le hlt)] at hphase
  cases status with
  | fresh _ => cases hphase
  | blocked _ => cases hphase
  | granted _ => cases hphase
  | suspended _ => cases hfresh
  | ended _ => cases hfresh

variable [Program κ]

/-- The course of commands before the first turn. -/
def commandCourse (commands : List String) (limit : Option Int) (m : Machine κ) :
    Course (Machine κ) TaskState TaskResult Failure :=
  .ofTasks (commands.map fun command => .fresh (.job (.ofCommand command))) limit m

/-- On the way from one course to another a command has a turn, in which it is tried to start its
program. -/
def HasTried (start last : Course (Machine κ) TaskState TaskResult Failure) (i : Nat)
    (command : String) : Prop :=
  ∃ before after outcome, Course.Reaches coroutine Lapses start before ∧
    before.Resume coroutine after ∧ Course.Reaches coroutine Lapses after last ∧
    after.turns = before.turns ++ [⟨i, outcome⟩] ∧ before.state.Tries command

theorem HasTried.trans {start last next : Course (Machine κ) TaskState TaskResult Failure} {i : Nat}
    {command : String} (htried : HasTried start last i command)
    (hreaches : Course.Reaches coroutine Lapses last next) : HasTried start next i command := by
  obtain ⟨before, after, outcome, hbefore, hresume, hafter, hturn⟩ := htried
  exact ⟨before, after, outcome, hbefore, hresume, hafter.trans hreaches, hturn⟩

/-- Commands can run together from a machine on: settings can be read, and scratch files can be
named.  In whatever order the commands have their turns, their programs end, and as time passes the
current directory and the scratch directory stay in place. -/
structure Machine.Admits (m : Machine κ) (commands : List String) (limit : Option Int)
    (settings : Settings) (base : String) : Prop where
  read : Settings.read m.environment = .ok settings
  delay : settings.pollDelay ≠ none
  tmpdir : settings.tmpdir.getD systemScratch = base
  fits : FitsScratch base
  names : m.scratch + commands.length ≤ 16 ^ 32
  place : m.disk.InPlace base
  stays : ∀ course, Course.Reaches coroutine Lapses (commandCourse commands limit m) course →
    course.state.disk.InPlace base → ∀ ticks, (course.state.elapse ticks).disk.InPlace base
  ends : ∀ course, Course.Reaches coroutine Lapses (commandCourse commands limit m) course →
    ∀ program ∈ course.state.programs, Terminates program

/-- What holds in every course of commands, of which `begun` have begun. -/
structure Together (commands : List String) (limit : Option Int) (m : Machine κ) (base : String)
    (course : Course (Machine κ) TaskState TaskResult Failure) (begun : Nat) : Prop where
  place : course.state.disk.InPlace base
  environment : course.state.environment = m.environment
  out : course.state.out = m.out
  scratch : course.state.scratch ≤ m.scratch + begun
  delays : ∀ turn ∈ course.turns, turn.outcome ≠ .paused none
  length : course.pool.tasks.length = commands.length
  standing : ∀ {i : Nat} {command : String}, commands[i]? = some command → ∃ status,
    (course.pool.tasks.map Status.plain)[i]? = some status ∧
      Standing base (HasTried (commandCourse commands limit m) course i command) course.state
        command status
  apart : ∀ {i j : Nat} {status other : Status TaskState TaskResult Failure} {id : Nat},
    (course.pool.tasks.map Status.plain)[i]? = some status →
    (course.pool.tasks.map Status.plain)[j]? = some other →
    status.handle? = some id → other.handle? = some id → i = j

namespace Together

variable {commands : List String} {limit : Option Int} {m : Machine κ} {settings : Settings}
  {base : String} {course next : Course (Machine κ) TaskState TaskResult Failure}
  {begun handed asked : Nat}

theorem ofTasks (hadmits : m.Admits commands limit settings base) :
    Together commands limit m base (commandCourse commands limit m) 0 := by
  have hplain : ∀ {i : Nat} {status : Status TaskState TaskResult Failure},
      ((commandCourse commands limit m).pool.tasks.map Status.plain)[i]? = some status →
        ∃ command, commands[i]? = some command ∧
          status = .fresh (.fresh (.job (.ofCommand command))) := by
    intro i status hstatus
    simp only [commandCourse, Course.ofTasks, Pool.ofTasks, List.map_map, List.getElem?_map,
      Option.map_eq_some_iff] at hstatus
    obtain ⟨command, hcommand, rfl⟩ := hstatus
    exact ⟨command, hcommand, rfl⟩
  refine ⟨hadmits.place, rfl, rfl, Nat.le_refl _, by simp [commandCourse, Course.ofTasks], ?_, ?_,
    ?_⟩
  · simp [commandCourse, Course.ofTasks, Pool.ofTasks]
  · intro i command hcommand
    refine ⟨_, ?_, .fresh⟩
    simp only [commandCourse, Course.ofTasks, Pool.ofTasks, List.map_map, List.getElem?_map,
      hcommand]
    rfl
  · intro i j status other id hstatus _ hid
    obtain ⟨command, -, rfl⟩ := hplain hstatus
    cases hid

theorem exists_standing (htogether : Together commands limit m base course begun) {i : Nat}
    {status : Status TaskState TaskResult Failure}
    (hstatus : (course.pool.tasks.map Status.plain)[i]? = some status) :
    ∃ command, commands[i]? = some command ∧
      Standing base (HasTried (commandCourse commands limit m) course i command) course.state
        command status := by
  have hlt := (List.getElem?_eq_some_iff.mp hstatus).1
  rw [List.length_map, htogether.length] at hlt
  obtain ⟨other, hother, hstanding⟩ := htogether.standing (List.getElem?_eq_getElem hlt)
  rw [hstatus, Option.some.injEq] at hother
  exact ⟨_, List.getElem?_eq_getElem hlt, hother ▸ hstanding⟩

/-- A turn of one command leaves the others where they stand. -/
theorem turn (htogether : Together commands limit m base course begun) {i taken begun' : Nat}
    {command : String} {status : Status TaskState TaskResult Failure} {task : TaskState}
    (hcommand : commands[i]? = some command)
    (hstatus : (course.pool.tasks.map Status.plain)[i]? = some status)
    (htask : status.task? = some task) (hresume : course.Resume coroutine next)
    (hadvances : Advances base (HasTried (commandCourse commands limit m) next i command) command
      task taken course.state (coroutine.resume task course.state).1
      (coroutine.resume task course.state).2)
    (hbegun : begun + taken ≤ begun')
    (hstate : next.state = (coroutine.resume task course.state).2)
    (hturns : next.turns =
      course.turns ++ [⟨i, .of (coroutine.resume task course.state).1⟩])
    (hplain : next.pool.tasks.map Status.plain = (course.pool.tasks.map Status.plain).set i
      (.after (coroutine.resume task course.state).1)) :
    Together commands limit m base next begun' := by
  have hlt := (List.getElem?_eq_some_iff.mp hstatus).1
  have hself : (next.pool.tasks.map Status.plain)[i]? =
      some (.after (coroutine.resume task course.state).1) := by
    rw [hplain, List.getElem?_set_self hlt]
  have hother : ∀ {j : Nat}, j ≠ i → (next.pool.tasks.map Status.plain)[j]? =
      (course.pool.tasks.map Status.plain)[j]? := by
    intro j hne
    rw [hplain, List.getElem?_set_ne (Ne.symm hne)]
  have hhandle : status.handle? = task.handle? := by
    rw [Status.handle?, htask]
    rfl
  -- the handle of the command that had the turn is new, or it had it before
  have hnobody : ∀ {j : Nat} {other : Status TaskState TaskResult Failure} {id : Nat}, j ≠ i →
      (course.pool.tasks.map Status.plain)[j]? = some other → other.handle? = some id →
        (Status.after (coroutine.resume task course.state).1 :
          Status TaskState TaskResult Failure).handle? ≠ some id := by
    intro j other id hne hj hid hsame
    rcases hadvances.handle id hsame with hbefore | hnew
    · exact hne (htogether.apart hj hstatus hid (hhandle.trans hbefore))
    · obtain ⟨_, -, hstanding⟩ := htogether.exists_standing hj
      exact absurd (hstanding.handle_lt hid) (Nat.not_lt.mpr hnew)
  have hscratch := hadvances.scratch
  have hscratch' := htogether.scratch
  refine ⟨hstate ▸ hadvances.place, ?_, ?_, ?_, ?_, ?_, ?_, ?_⟩
  · rw [hstate, hadvances.environment, htogether.environment]
  · rw [hstate, hadvances.out, htogether.out]
  · rw [hstate]
    omega
  · intro turn hturn
    rw [hturns, List.mem_append, List.mem_singleton] at hturn
    rcases hturn with hturn | rfl
    · exact htogether.delays turn hturn
    · exact hadvances.delay
  · rw [← htogether.length]
    simpa using congrArg List.length hplain
  · intro j other hj
    by_cases hji : j = i
    · subst hji
      rw [hcommand, Option.some.injEq] at hj
      subst hj
      exact ⟨_, hself, hstate ▸ hadvances.standing⟩
    · obtain ⟨there, hthere, hstanding⟩ := htogether.standing hj
      refine ⟨there, (hother hji).trans hthere,
        hstanding.of_awaits (fun htried => htried.trans (.single (.resume hresume)))
          fun hid hawaits => ?_⟩
      rw [hstate]
      refine hadvances.others (fun hsame => hji ?_) hawaits
      exact htogether.apart hthere hstatus hid (hhandle.trans hsame)
  · intro j k here there id hj hk hid hid'
    by_cases hji : j = i
    · by_cases hki : k = i
      · exact hji.trans hki.symm
      · subst hji
        rw [hself, Option.some.injEq] at hj
        rw [hother hki] at hk
        exact absurd (hj ▸ hid) (hnobody hki hk hid')
    · by_cases hki : k = i
      · subst hki
        rw [hself, Option.some.injEq] at hk
        rw [hother hji] at hj
        exact absurd (hk ▸ hid') (hnobody hji hj hid)
      · rw [hother hji] at hj
        rw [hother hki] at hk
        exact htogether.apart hj hk hid hid'

theorem step (hload : LoadsQuietly κ) (hshown : AnswersShown κ)
    (hadmits : m.Admits commands limit settings base)
    (hreaches : Course.Reaches coroutine Lapses (commandCourse commands limit m) course)
    (horderly : course.Orderly (seatLimit limit) begun handed asked)
    (htogether : Together commands limit m base course begun)
    (hresume : course.Resume coroutine next) :
    ∃ begun' handed' asked', next.Orderly (seatLimit limit) begun' handed' asked' ∧
      Together commands limit m base next begun' := by
  have hstepped := horderly.step hresume
  have hlength := hstepped.length
  have hfurther : Course.Reaches coroutine Lapses course next := .single (.resume hresume)
  cases hstepped with
  | waits hnext _ hstate hturns hplain =>
      refine ⟨_, _, _, hnext, ?_⟩
      obtain ⟨hplace, henvironment, hout, hscratch, hdelays, hcount, hstanding, hapart⟩ := htogether
      rw [← hstate] at hplace henvironment hout hscratch
      refine ⟨hplace, henvironment, hout, hscratch, hturns ▸ hdelays, hlength.trans hcount, ?_,
        hplain.symm ▸ hapart⟩
      intro i command hcommand
      obtain ⟨status, hstatus, hstanding⟩ := hstanding hcommand
      refine ⟨status, hplain.symm ▸ hstatus, ?_⟩
      rw [hstate]
      exact hstanding.of_awaits (fun htried => htried.trans hfurther) fun _ hawaits => hawaits
  | @turn begun' handed' asked' i status pool' task hnext hbegun hseated hstatus htask hstate hturns
      hplain =>
      have hplainStatus : (course.pool.tasks.map Status.plain)[i]? = some status.plain := by
        rw [List.getElem?_map, hstatus]
        rfl
      have htask' : status.plain.task? = some task := (Status.task?_plain status).trans htask
      have hread : Settings.read course.state.environment = .ok settings := by
        rw [htogether.environment, hadmits.read]
      obtain ⟨command, hcommand, hstanding⟩ := htogether.exists_standing hplainStatus
      have hlt : i < commands.length := (List.getElem?_eq_some_iff.mp hcommand).1
      have hnames := hadmits.names
      have hscratch := htogether.scratch
      refine ⟨begun', handed', asked', hnext, ?_⟩
      generalize hsame : status.plain = plain at hstanding hplainStatus htask'
      cases hstanding with
      | fresh =>
          cases htask'
          have hfresh := horderly.lined.le_of_fresh hstatus hsame
          have hfirst := firstTurn_resume hload hshown command hread hadmits.tmpdir hadmits.fits
            htogether.place (by omega)
          have htried : course.state.Tries command →
              HasTried (commandCourse commands limit m) next i command :=
            fun htries => ⟨course, next, _, hreaches, hresume, .refl, hturns, htries⟩
          have hadvances := advances_of_firstTurn hadmits.delay htogether.place htried hfirst
          exact htogether.turn hcommand hplainStatus rfl hresume hadvances (by omega) hstate hturns
            hplain
      | waits htried hawaits =>
          cases htask'
          have hadvances := advances_of_awaits command hshown hadmits.fits hread hadmits.delay
            htogether.place (htried.trans hfurther) hawaits
          exact htogether.turn hcommand hplainStatus rfl hresume hadvances (by omega) hstate hturns
            hplain
      | invalid _ => cases htask'
      | ended _ => cases htask'

theorem lapse (hadmits : m.Admits commands limit settings base)
    (hreaches : Course.Reaches coroutine Lapses (commandCourse commands limit m) course)
    (htogether : Together commands limit m base course begun) {state : Machine κ}
    (hlapses : Lapses course.state state) :
    Together commands limit m base { course with state } begun := by
  have hfurther : Course.Reaches coroutine Lapses course { course with state } :=
    .single (.world hlapses)
  obtain ⟨ticks, rfl⟩ := hlapses
  refine ⟨hadmits.stays course hreaches htogether.place ticks, ?_, ?_, ?_, htogether.delays,
    htogether.length, ?_, htogether.apart⟩
  · exact (Machine.environment_elapse ticks course.state).trans htogether.environment
  · exact (Machine.out_elapse ticks course.state).trans htogether.out
  · rw [Machine.scratch_elapse]
    exact htogether.scratch
  · intro i command hcommand
    obtain ⟨status, hstatus, hstanding⟩ := htogether.standing hcommand
    refine ⟨status, hstatus, hstanding.of_awaits (fun htried => htried.trans hfurther) ?_⟩
    exact fun _ hawaits => hawaits.elapse ticks

/-- Commands run together in every course of theirs. -/
theorem of_reaches (hload : LoadsQuietly κ) (hshown : AnswersShown κ)
    (hadmits : m.Admits commands limit settings base)
    (hreaches : Course.Reaches coroutine Lapses (commandCourse commands limit m) course) :
    ∃ begun handed asked, course.Orderly (seatLimit limit) begun handed asked ∧
      Together commands limit m base course begun := by
  induction hreaches with
  | refl => exact ⟨0, 0, 0, Course.orderly_ofTasks _ limit m, ofTasks hadmits⟩
  | tail hbefore hstep ih =>
      obtain ⟨begun, handed, asked, horderly, htogether⟩ := ih
      cases hstep with
      | resume hresume => exact step hload hshown hadmits hbefore horderly htogether hresume
      | world hworld =>
          exact ⟨begun, handed, asked, ⟨horderly.lined, horderly.starts, horderly.endings⟩,
            htogether.lapse hadmits hbefore hworld⟩

/-- A run is only suspended again while its program runs, and then its turn has changed nothing. -/
theorem polls (hshown : AnswersShown κ) (hadmits : m.Admits commands limit settings base)
    (htogether : Together commands limit m base course begun) {i : Nat} {task rest : TaskState}
    {delay : Option Nat} {m' : Machine κ} (htask : course.pool.tasks[i]? = some (.suspended task))
    (hturn : coroutine.resume task course.state = (.ok (.paused delay rest), m')) :
    m' = course.state ∧ course.state.Busy := by
  have hplain : (course.pool.tasks.map Status.plain)[i]? = some (.suspended task) := by
    rw [List.getElem?_map, htask]
    rfl
  have hread : Settings.read course.state.environment = .ok settings := by
    rw [htogether.environment, hadmits.read]
  obtain ⟨command, -, hstanding⟩ := htogether.exists_standing hplain
  cases hstanding with
  | @waits waiting index _ hawaits =>
      rcases resume_awaiting hshown hadmits.fits htogether.place hread hawaits with
        ⟨hrunning, hresume⟩ | ⟨errors, _, hresume, -⟩
      · rw [hresume] at hturn
        cases hturn
        refine ⟨rfl, _, List.getElem_mem hawaits.running, ?_⟩
        rw [Machine.answerOf, List.getElem?_eq_getElem hawaits.running] at hrunning
        exact hrunning
      · rw [hresume] at hturn
        cases hturn

theorem failure_eq_none (htogether : Together commands limit m base course begun)
    (horderly : course.Orderly (seatLimit limit) begun handed asked) : course.failure = none := by
  rw [horderly.failure_eq_none_iff]
  intro i failure hended
  have hplain : (course.pool.tasks.map Status.plain)[i]? = some (.ended (.error failure)) := by
    rw [List.getElem?_map, hended]
    rfl
  obtain ⟨command, -, hstanding⟩ := htogether.exists_standing hplain
  cases hstanding

/-- A command that has ended has a verdict. -/
theorem verdict (htogether : Together commands limit m base course begun)
    {results : List TaskResult}
    (htasks : course.pool.tasks = results.map fun result => .ended (.ok result)) {i : Nat}
    {command : String} (hcommand : commands[i]? = some command) :
    ∃ errors, results[i]? = some (.run (.verdict errors)) ∧
      (Command.parse command = none ∧ errors = invalidVerdict command ∨
        HasTried (commandCourse commands limit m) course i command) := by
  obtain ⟨status, hstatus, hstanding⟩ := htogether.standing hcommand
  rw [htasks, List.map_map, List.getElem?_map, Option.map_eq_some_iff] at hstatus
  obtain ⟨result, hresult, rfl⟩ := hstatus
  generalize hended : (Status.plain ∘ fun result => .ended (.ok result)) result = status
    at hstanding
  cases hstanding with
  | fresh => cases hended
  | waits _ _ => cases hended
  | invalid hparse =>
      cases hended
      exact ⟨_, hresult, Or.inl ⟨hparse, rfl⟩⟩
  | ended htried =>
      cases hended
      exact ⟨_, hresult, Or.inr htried⟩

/-- The results are verdicts. -/
theorem results_eq (htogether : Together commands limit m base course begun)
    {results : List TaskResult}
    (htasks : course.pool.tasks = results.map fun result => .ended (.ok result)) :
    results = (results.map TaskResult.failure?).map fun errors => .run (.verdict errors) := by
  have hlength : results.length = commands.length := by
    rw [← htogether.length, htasks, List.length_map]
  rw [List.map_map]
  refine ((List.map_congr_left fun result hmem => ?_).trans (List.map_id results)).symm
  obtain ⟨i, hi⟩ := List.mem_iff_getElem?.mp hmem
  have hlt : i < commands.length := hlength ▸ (List.getElem?_eq_some_iff.mp hi).1
  obtain ⟨errors, herrors, -⟩ := htogether.verdict htasks (List.getElem?_eq_getElem hlt)
  rw [hi, Option.some.injEq] at herrors
  subst herrors
  rfl

end Together

/-! ## Verdicts and reports -/

namespace Act

variable {commands : List String} {limit : Option Int} {m : Machine κ} {settings : Settings}
  {base : String}

/-- Commands that run together come to an end. -/
theorem exists_last (hload : LoadsQuietly κ) (hshown : AnswersShown κ) (hends : EndsForGood κ)
    (hadmits : m.Admits commands limit settings base) :
    ∃ results last begun,
      Course.Reaches coroutine Lapses (commandCourse commands limit m) last ∧
      Together commands limit m base last begun ∧
      (runTogether (commands.map fun command => .job (.ofCommand command)) limit).run m =
        (.ok results, last.state) ∧
      last.pool.tasks = results.map fun result => .ended (.ok result) := by
  have hall : ∀ course, Course.Reaches coroutine Lapses (commandCourse commands limit m) course →
      ∃ begun handed asked, course.Orderly (seatLimit limit) begun handed asked ∧
        Together commands limit m base course begun :=
    fun course hreaches => Together.of_reaches hload hshown hadmits hreaches
  obtain ⟨last, hreaches, -, hover⟩ := @exists_course_runPool_of_patient _ _ _ _ coroutine clock
    Lapses (commands.map fun command => .fresh (.job (.ofCommand command))) limit m Machine.Busy
    Machine.Further (fun _ => rfl) (fun ticks m => ⟨ticks, rfl⟩) Machine.clock_elapse
    (fun course hreaches => by
      obtain ⟨_, _, _, -, htogether⟩ := hall course hreaches
      exact htogether.delays)
    (fun course hreaches _ _ _ _ _ htask hturn => by
      obtain ⟨_, _, _, -, htogether⟩ := hall course hreaches
      exact htogether.polls hshown hadmits htask hturn)
    (fun course hreaches => Machine.acc_further (hadmits.ends course hreaches))
    (fun course _ _ hbusy hticks => Machine.further_elapse hends hbusy hticks)
    (fun course _ _ hidle => Machine.idle_elapse hends hidle _)
  obtain ⟨begun, handed, asked, horderly, htogether⟩ := hall last hreaches
  obtain ⟨results, hrun, htasks⟩ := hover (htogether.failure_eq_none horderly)
  refine ⟨results, last, begun, hreaches, htogether, ?_, htasks⟩
  rw [run_runTogether, List.map_map]
  exact congrArg (fun outcome : Except (Option Failure) (List TaskResult) × Machine κ =>
    (outcome.1.mapError fun failure => failure.getD .stalled, outcome.2)) hrun

theorem run_runCommands {verdicts : List (Option String)} {m₁ : Machine κ}
    (hrun : (runTogether (commands.map fun command => .job (.ofCommand command)) limit).run m =
      (.ok (verdicts.map fun errors => .run (.verdict errors)), m₁)) :
    (runCommands commands limit).run m =
      (.ok (.ofFailures verdicts), { m₁ with
        out := m₁.out ++ (String.join ((commands.zip verdicts).map fun verdict =>
          verdictReport verdict.1 verdict.2) ++ tallyReport (.ofFailures verdicts)) }) := by
  have hfailures : (verdicts.map fun errors => TaskResult.run (.verdict errors)).map
      TaskResult.failure? = verdicts := by
    rw [List.map_map]
    exact List.map_id verdicts
  unfold Job.ofCommand at hrun
  unfold runCommands
  dsimp only
  rw [run_bind, hrun]
  dsimp only
  rw [hfailures, run_bind, run_printVerdicts]
  dsimp only
  rw [run_bind, run_reportTally, String.append_assoc]
  rfl

/-- Where the current directory and the scratch directory stay in place and all programs end,
commands come to verdicts, which are reported and counted. -/
theorem commands_reported (hload : LoadsQuietly κ) (hshown : AnswersShown κ) (hends : EndsForGood κ)
    (hadmits : m.Admits commands limit settings base) :
    ∃ (verdicts : List (Option String)) (last : Course (Machine κ) TaskState TaskResult Failure),
      Course.Reaches coroutine Lapses (commandCourse commands limit m) last ∧
      (runTogether (commands.map fun command => .job (.ofCommand command)) limit).run m =
        (.ok (verdicts.map fun errors => .run (.verdict errors)), last.state) ∧
      verdicts.length = commands.length ∧
      (∀ (i : Nat) (command : String), commands[i]? = some command →
        (Command.parse command = none ∧ verdicts[i]? = some (invalidVerdict command)) ∨
          HasTried (commandCourse commands limit m) last i command) ∧
      (runCommands commands limit).run m =
        (.ok (.ofFailures verdicts), { last.state with
          out := m.out ++ (String.join ((commands.zip verdicts).map fun verdict =>
            verdictReport verdict.1 verdict.2) ++ tallyReport (.ofFailures verdicts)) }) ∧
      (Tally.ofFailures verdicts).succeeded + (Tally.ofFailures verdicts).failed =
        commands.length := by
  obtain ⟨results, last, begun, hreaches, htogether, hrun, htasks⟩ :=
    exists_last hload hshown hends hadmits
  have hverdicts := htogether.results_eq htasks
  have hcount : (results.map TaskResult.failure?).length = commands.length := by
    rw [← htogether.length, htasks, List.length_map, List.length_map]
  generalize hfailures : results.map TaskResult.failure? = verdicts at hverdicts hcount
  rw [hverdicts] at hrun
  have hreport := run_runCommands hrun
  rw [htogether.out] at hreport
  refine ⟨verdicts, last, hreaches, hrun, hcount, fun i command hcommand => ?_, hreport,
    (Tally.succeeded_add_failed verdicts).trans hcount⟩
  obtain ⟨errors, herrors, hends⟩ := htogether.verdict htasks hcommand
  refine hends.imp_left fun ⟨hparse, hsame⟩ => ⟨hparse, ?_⟩
  rw [← hfailures, List.getElem?_map, herrors, hsame]
  rfl

/-- A machine with a directory for temporary files, which holds nothing. -/
def tmpMachine : Machine Pause where
  disk := { tree := .dir [("tmp", .dir [] none)] none, cwd := .root }
  environment := [(tmpdirVariable, "/tmp")]

def tmpCommands : List String := ["true", "", "sleep 1"]

theorem inPlace_tmpMachine : tmpMachine.disk.InPlace "/tmp" := by
  refine ⟨rfl, rfl, ?_, @Node.KeepsScratch.missing _ _ ["tmp"] rfl rfl⟩
  intro location hdirectory name hname
  cases location with
  | nil => cases hname
  | cons first rest =>
      have hfirst : first = "tmp" := by
        by_contra hne
        have hnone : (first == "tmp") = false := by simpa using hne
        simp [tmpMachine, Node.kindAt_cons, Node.entries, List.lookup_cons, hnone] at hdirectory
      subst hfirst
      cases rest with
      | nil =>
          rw [List.mem_singleton.mp hname]
          decide
      | cons second rest => simp [tmpMachine, Node.kindAt_cons, Node.entries] at hdirectory

theorem admits_tmpMachine :
    ∃ settings, tmpMachine.Admits tmpCommands (some 1) settings "/tmp" := by
  refine ⟨_, rfl, by decide, rfl, ⟨by decide, by decide, by decide⟩, by decide, inPlace_tmpMachine,
    ?_, fun _ _ program _ => terminates_pause program⟩
  intro course _ hplace ticks
  rw [Machine.disk_elapse fun _ _ _ => rfl]
  exact hplace

theorem answersShown_pause : AnswersShown Pause where
  shown := by
    intro program
    show (if program.left = 0 then Answer.exited 0 else .running).IsShown
    split
    · trivial
    · trivial

/-- Three commands run one after the other; the second is no command line. -/
theorem commands_reported_tmpMachine :
    LoadsQuietly Pause ∧ AnswersShown Pause ∧ EndsForGood Pause ∧
      ∃ settings, tmpMachine.Admits tmpCommands (some 1) settings "/tmp" ∧
        ∃ verdicts m', (runCommands tmpCommands (some 1)).run tmpMachine =
            (.ok (.ofFailures verdicts), m') ∧
          (Tally.ofFailures verdicts).succeeded + (Tally.ofFailures verdicts).failed = 3 ∧
          verdicts[1]? = some (invalidVerdict "") := by
  obtain ⟨settings, hadmits⟩ := admits_tmpMachine
  obtain ⟨verdicts, last, -, -, -, hall, hrun, hcount⟩ :=
    commands_reported loadsQuietly_pause answersShown_pause endsForGood_pause hadmits
  refine ⟨loadsQuietly_pause, answersShown_pause, endsForGood_pause, settings, hadmits, verdicts, _,
    hrun, hcount, ?_⟩
  have hparse : Command.parse "" = none := by decide
  rcases hall 1 "" rfl with ⟨-, hverdict⟩ | ⟨_, _, _, -, -, -, -, words, _, _, _, _, hsome, -⟩
  · exact hverdict
  · rw [hparse] at hsome
    cases hsome

end Act

end BuildRunner
