import BuildRunner.Proofs.Schedule.Agenda
import BuildRunner.Proofs.Schedule.Progress
import BuildRunner.Proofs.Schedule.Sessions
import Mathlib.Data.List.Nodup

/-!
# Loops follow courses

The entries and the timers of a loop are an agenda.  The entries for first turns stand in the order
in which the tasks are called, and the reports in the order in which the tasks have ended.  So every
step of a loop is a step of a course, or brings the loop nearer to one, and a loop ends where its
course cannot go on.
-/

namespace BuildRunner.Schedule

variable {σ τ ρ ε : Type}

namespace Loop

theorem map_snd_addTimer (time i : Nat) (timers : List (Nat × Nat)) :
    ((addTimer time i timers).map Prod.snd).Perm (timers.map Prod.snd ++ [i]) := by
  induction timers with
  | nil => exact .refl _
  | cons timer timers ih =>
      rw [addTimer]
      split
      · exact ih.cons timer.2
      · exact (List.perm_append_singleton i _).symm

theorem queue_note (now : Nat) (loop : Loop τ ρ ε) (wake : Wake) :
    (note now loop wake).queue = loop.queue ++ [wake].filterMap Wake.entry? := by
  match wake with
  | .granted _ => rfl
  | .finished _ => rfl
  | .paused _ none => exact (List.append_nil _).symm
  | .paused _ (some 0) => rfl
  | .paused _ (some (_ + 1)) => exact (List.append_nil _).symm

theorem timers_note (now : Nat) (loop : Loop τ ρ ε) (wake : Wake) :
    ((note now loop wake).timers.map Prod.snd).Perm
      (loop.timers.map Prod.snd ++ [wake].filterMap Wake.timer?) := by
  match wake with
  | .granted _ => exact .of_eq (List.append_nil _).symm
  | .finished _ => exact .of_eq (List.append_nil _).symm
  | .paused _ none => exact .of_eq (List.append_nil _).symm
  | .paused _ (some 0) => exact .of_eq (List.append_nil _).symm
  | .paused i (some (delay + 1)) => exact map_snd_addTimer _ i loop.timers

theorem note_rest (now : Nat) (loop : Loop τ ρ ε) (wake : Wake) :
    (note now loop wake).round = loop.round ∧ (note now loop wake).failure = loop.failure ∧
      (note now loop wake).stopping = loop.stopping := by
  unfold note
  split <;> exact ⟨rfl, rfl, rfl⟩

/-- What a loop makes of the consequences of a turn. -/
theorem foldl_note (now : Nat) (wakes : List Wake) (loop : Loop τ ρ ε) :
    (wakes.foldl (note now) loop).queue = loop.queue ++ wakes.filterMap Wake.entry? ∧
      ((wakes.foldl (note now) loop).timers.map Prod.snd).Perm
        (loop.timers.map Prod.snd ++ wakes.filterMap Wake.timer?) ∧
      (wakes.foldl (note now) loop).round = loop.round ∧
      (wakes.foldl (note now) loop).failure = loop.failure ∧
      (wakes.foldl (note now) loop).stopping = loop.stopping := by
  induction wakes generalizing loop with
  | nil => simp
  | cons wake wakes ih =>
      obtain ⟨hqueue, htimers, hround, hfailure, hstopping⟩ := ih (note now loop wake)
      obtain ⟨hround', hfailure', hstopping'⟩ := note_rest now loop wake
      have hcons : ∀ {α : Type} (f : Wake → Option α),
          (wake :: wakes).filterMap f = [wake].filterMap f ++ wakes.filterMap f :=
        fun f => List.filterMap_append (l := [wake])
      rw [List.foldl_cons, hqueue, hround, hfailure, hstopping, queue_note, hcons, hcons,
        ← List.append_assoc, ← List.append_assoc]
      exact ⟨rfl, htimers.trans ((timers_note now loop wake).append_right _), hround', hfailure',
        hstopping'⟩

/-- A new round begins after a time.  If nothing was queued, a timer has run out; those that wait
for time to pass have it pass. -/
theorem exists_nextRound (clock : Clock σ) (loop : Loop τ ρ ε) (s : σ) :
    ∃ n due rest, loop.timers = due ++ rest ∧
      Loop.nextRound clock loop s =
        ({ loop with
            round := loop.queue ++ (due.map Prod.snd).map .task
            queue := []
            timers := rest }, clock.elapse n s) ∧
      ((∀ n s, clock.now (clock.elapse n s) = clock.now s + n) → loop.queue = [] →
        loop.timers ≠ [] → due ≠ []) ∧
      (n = 0 → loop.queue.any isAgain = false) ∧
      ∀ timer ∈ due, timer.1 ≤ clock.now (clock.elapse n s) := by
  obtain ⟨n, hn⟩ : ∃ n, n = if loop.queue.isEmpty then
      loop.timers.head?.elim 0 fun timer => timer.1 - clock.now s
    else if loop.queue.any isAgain then 1 else 0 := ⟨_, rfl⟩
  have hsplit : ∀ p : Nat × Nat → Bool,
      loop.timers = loop.timers.takeWhile p ++ loop.timers.drop (loop.timers.takeWhile p).length :=
    fun p => (List.prefix_iff_eq_append.mp (List.takeWhile_prefix p)).symm
  refine ⟨n, _, _, hsplit fun timer => decide (timer.1 ≤ clock.now (clock.elapse n s)), ?_, ?_, ?_,
    ?_⟩
  · rw [hn, List.map_map]
    rfl
  · intro hclock hqueue htimers
    cases hall : loop.timers with
    | nil => exact absurd hall htimers
    | cons timer timers =>
        rw [hall, hqueue] at hn
        have hn' : n = timer.1 - clock.now s := hn
        have hdue : timer.1 ≤ clock.now (clock.elapse n s) := by
          rw [hclock]
          omega
        rw [List.takeWhile_cons_of_pos (by simpa using hdue)]
        exact List.cons_ne_nil _ _
  · intro hnone
    rw [hn] at hnone
    cases hqueue : loop.queue with
    | nil => rfl
    | cons entry entries =>
        rw [hqueue, List.isEmpty_cons, if_neg (by decide)] at hnone
        by_contra hagain
        rw [Bool.not_eq_false] at hagain
        rw [hagain, if_pos rfl] at hnone
        cases hnone
  · intro timer htimer
    simpa using List.all_eq_true.mp List.all_takeWhile timer htimer

/-! ## Steps -/

/-- What is still to be taken. -/
def pending (loop : Loop τ ρ ε) : List Entry := loop.round ++ loop.queue

/-- A loop stands where a course does.  Until all tasks have asked for a seat, the round holds the
entries of those that have not, and nothing else. -/
structure Tracks (limit : Option Nat) (loop : Loop τ ρ ε) (course : Course σ τ ρ ε) : Prop where
  pool : loop.pool = course.pool
  orderly : ∃ begun handed asked, course.Orderly limit begun handed asked
  agenda : Agenda course.pool loop.pending (loop.timers.map Prod.snd)
  called : course.called = loop.pending.filterMap course.pool.called?
  failure : course.failure = loop.failure.or (loop.pending.findSome? course.pool.reported?)
  woken : .wake ∈ loop.pending ∨ .stop ∈ loop.pending ∨ loop.stopping = true →
    loop.failure ≠ none
  first : ∀ {i : Nat} {task : τ}, course.pool.tasks[i]? = some (.fresh task) →
    ∀ entry ∈ loop.round, ∃ (j : Nat) (task : τ), entry = .task j ∧ course.pool.tasks[j]? = some (.fresh task)
  later : ∀ {i : Nat} {task : τ}, course.pool.tasks[i]? = some (.fresh task) → .task i ∉ loop.queue

variable {routine : Coroutine σ τ ρ ε} {clock : Clock σ} {limit : Option Nat}
  {loop : Loop τ ρ ε} {course : Course σ τ ρ ε}

namespace Tracks

/-- The task of the entry at the head of a round is due. -/
theorem due (htracks : Tracks limit loop course) {entry : Entry} {rest : List Entry} {i : Nat}
    (hround : loop.round = entry :: rest) (hresumed : entry.resumed? = some i) :
    course.pool.Due course.called i ((rest ++ loop.queue).filterMap course.pool.called?) := by
  have hagenda := htracks.agenda
  have hcalled := htracks.called
  rw [pending, hround, List.cons_append] at hagenda hcalled
  obtain ⟨status, hstatus, hready⟩ := hagenda.exists_ready hresumed
  -- an entry for a first turn calls its task
  have hcall : (∀ rest, status ≠ .suspended rest) →
      course.pool.Due course.called i ((rest ++ loop.queue).filterMap course.pool.called?) := by
    intro hnot
    have hentry : course.pool.called? entry = some i := by
      cases entry with
      | task j =>
          cases hresumed
          cases status <;> simp_all [Pool.called?, Status.isReady]
      | again j =>
          cases hresumed
          obtain ⟨rest, hsuspended⟩ := hagenda.fits _ List.mem_cons_self
          rw [hsuspended] at hstatus
          cases hstatus
          exact absurd rfl (hnot rest)
      | _ => cases hresumed
    rw [hcalled, List.filterMap_cons_some hentry]
    exact .call
  cases status with
  | fresh task => exact hcall (by simp)
  | granted task => exact hcall (by simp)
  | suspended task =>
      have hnone : course.pool.called? entry = none := by
        cases entry with
        | task j =>
            cases hresumed
            simp [Pool.called?, hstatus]
        | _ => rfl
      rw [hcalled, List.filterMap_cons_none hnone]
      refine .goOn (fun other hother hasking => ?_) hstatus
      obtain ⟨j, hj⟩ := List.mem_iff_getElem?.mp hother
      cases other with
      | fresh task =>
          obtain ⟨k, task', rfl, hfresh⟩ :=
            htracks.first hj entry (hround ▸ List.mem_cons_self)
          cases hresumed
          simp [hfresh] at hstatus
      | _ => cases hasking
  | blocked task => cases hready
  | ended ending => cases hready

/-- Taking the entry of a task is a step of the course. -/
theorem resume (htracks : Tracks limit loop course) {entry : Entry} {rest : List Entry} {i : Nat}
    (hround : loop.round = entry :: rest) (hresumed : entry.resumed? = some i)
    (hprompt : ∀ next, course.Resume routine next → ∀ turn ∈ next.turns,
      turn.outcome ≠ .paused none) :
    ∃ next, course.Resume routine next ∧
      Tracks limit (Loop.resume routine clock i { loop with round := rest } course.state).1 next ∧
      (Loop.resume routine clock i { loop with round := rest } course.state).2 = next.state := by
  have hdue := htracks.due hround hresumed
  obtain ⟨begun, handed, asked, horderly⟩ := htracks.orderly
  have hstep := Course.resumed routine horderly.lined hdue
  have hresume : course.Resume routine
      (course.afterResume routine i ((rest ++ loop.queue).filterMap course.pool.called?)) :=
    .due hdue
  generalize hnext : course.afterResume routine i
    ((rest ++ loop.queue).filterMap course.pool.called?) = next at hstep hresume
  generalize hwakes : (course.pool.resume routine i course.state).2.2 = wakes at hstep
  have hpool : (course.pool.resume routine i course.state).1 = next.pool := by rw [← hnext]; rfl
  have hstate : (course.pool.resume routine i course.state).2.1 = next.state := by rw [← hnext]; rfl
  have hcalled : next.called = (rest ++ loop.queue).filterMap course.pool.called? ++
      wakes.filterMap Wake.granted? := by rw [← hnext, ← hwakes]; rfl
  have hloop : Loop.resume routine clock i { loop with round := rest } course.state =
      (wakes.foldl (note (clock.now next.state)) { loop with round := rest, pool := next.pool },
        next.state) := by
    unfold Loop.resume
    simp only [htracks.pool, hpool, hstate, hwakes]
  rw [hloop]
  refine ⟨next, hresume, ?_, rfl⟩
  obtain ⟨hqueue, htimers, hround', hfailure, hstopping⟩ := foldl_note (clock.now next.state) wakes
    { loop with round := rest, pool := next.pool }
  have hpending : (wakes.foldl (note (clock.now next.state))
      { loop with round := rest, pool := next.pool }).pending =
        (rest ++ loop.queue) ++ wakes.filterMap Wake.entry? := by
    rw [pending, hround', hqueue, List.append_assoc]
  have hagenda := htracks.agenda
  have hfailed := htracks.failure
  have hwoken := htracks.woken
  rw [pending, hround, List.cons_append] at hagenda hfailed hwoken
  -- what is left is about tasks that stay as they are
  have hsame : ∀ other ∈ rest ++ loop.queue, ∀ j, other.subject? = some j →
      next.pool.tasks[j]? = course.pool.tasks[j]? := by
    intro other hother j hsubject
    obtain ⟨hj, hwaits⟩ := hagenda.subject_rest hresumed hother hsubject
    exact hstep.getElem?_of_ne hj hwaits
  have hcalled? : (rest ++ loop.queue).filterMap next.pool.called? =
      (rest ++ loop.queue).filterMap course.pool.called? :=
    List.filterMap_congr fun other hother => Pool.called?_congr (hsame other hother)
  have hreported? : (rest ++ loop.queue).findSome? next.pool.reported? =
      (rest ++ loop.queue).findSome? course.pool.reported? := by
    rw [← List.head?_filterMap, ← List.head?_filterMap]
    exact congrArg List.head?
      (List.filterMap_congr fun other hother => Pool.reported?_congr (hsame other hother))
  refine ⟨?_, ?_, ?_, ?_, ?_, ?_, ?_, ?_⟩
  · rw [pool_foldl_note]
  · exact horderly.exists_step (.resume hresume : Course.Step routine (fun _ _ => False) _ _)
  · rw [hpending]
    exact (hagenda.resume hresumed hstep (hprompt next hresume)).perm htimers
  · rw [hpending, List.filterMap_append, hcalled?, hstep.filterMap_called?]
    exact hcalled
  · have hnone : course.pool.reported? entry = none := by
      cases entry with
      | report => cases hresumed
      | _ => rfl
    rw [hpending, List.findSome?_append, hreported?, hfailure, hstep.failure_eq, hfailed,
      List.findSome?_cons, hnone, Option.or_assoc]
  · rw [hpending, hfailure, hstopping]
    have hnew : ∀ other ∈ wakes.filterMap Wake.entry?, other ≠ .wake ∧ other ≠ .stop := by
      intro other hother
      obtain ⟨j, hsubject, -⟩ := hstep.not_fresh hother
      constructor
      all_goals
        rintro rfl
        cases hsubject
    intro hsome
    refine hwoken ?_
    rcases hsome with hwake | hstop | hstopping
    · rcases List.mem_append.mp hwake with hold | hnow
      · exact Or.inl (List.mem_cons_of_mem _ hold)
      · exact absurd rfl (hnew _ hnow).1
    · rcases List.mem_append.mp hstop with hold | hnow
      · exact Or.inr (Or.inl (List.mem_cons_of_mem _ hold))
      · exact absurd rfl (hnew _ hnow).2
    · exact Or.inr (Or.inr hstopping)
  · intro j task hfresh other hother
    rw [hround'] at hother
    obtain ⟨k, task', rfl, hk⟩ := htracks.first (hstep.fresh hfresh) other
      (hround ▸ List.mem_cons_of_mem _ hother)
    exact ⟨k, task', rfl,
      (hsame (.task k) (List.mem_append_left _ hother) k rfl).trans hk⟩
  · intro j task hfresh hmem
    rw [hqueue] at hmem
    rcases List.mem_append.mp hmem with hold | hnew
    · exact htracks.later (hstep.fresh hfresh) hold
    · obtain ⟨k, hsubject, hnot⟩ := hstep.not_fresh hnew
      cases hsubject
      exact hnot task hfresh

/-- Taking an entry that resumes nobody leaves the course where it is. -/
theorem skip (htracks : Tracks limit loop course) {entry : Entry} {rest new : List Entry}
    (hround : loop.round = entry :: rest) (hresumed : entry.resumed? = none) {loop' : Loop τ ρ ε}
    (hpool : loop'.pool = loop.pool) (htimers : loop'.timers = loop.timers)
    (hround' : loop'.round = rest) (hqueue : loop'.queue = loop.queue ++ new)
    (hnew : ∀ other ∈ new, other.subject? = none)
    (hfailure : course.failure =
      loop'.failure.or ((rest ++ loop.queue).findSome? course.pool.reported?))
    (hquiet : loop'.failure = none →
      loop.failure = none ∧ new = [] ∧ loop'.stopping = loop.stopping) :
    Tracks limit loop' course := by
  have hpending : loop'.pending = (rest ++ loop.queue) ++ new := by
    rw [pending, hround', hqueue, List.append_assoc]
  have hagenda := htracks.agenda
  have hcalled := htracks.called
  have hwoken := htracks.woken
  rw [pending, hround, List.cons_append] at hagenda hcalled hwoken
  have hcalledNew : new.filterMap course.pool.called? = [] := by
    refine List.filterMap_eq_nil_iff.mpr fun other hother => ?_
    have hsubject := hnew other hother
    cases other with
    | task => cases hsubject
    | _ => rfl
  have hcalledEntry : course.pool.called? entry = none := by
    cases entry with
    | task => cases hresumed
    | _ => rfl
  refine ⟨hpool.trans htracks.pool, htracks.orderly, ?_, ?_, ?_, ?_, ?_, ?_⟩
  · rw [hpending, htimers]
    exact hagenda.skip hresumed hnew
  · rw [hpending, List.filterMap_append, hcalledNew, List.append_nil, hcalled,
      List.filterMap_cons_none hcalledEntry]
  · have hreportedNew : new.findSome? course.pool.reported? = none := by
      refine List.findSome?_eq_none_iff.mpr fun other hother => ?_
      have hsubject := hnew other hother
      cases other with
      | report => cases hsubject
      | _ => rfl
    rw [hpending, List.findSome?_append, hreportedNew, Option.or_none]
    exact hfailure
  · intro hsome hnone
    obtain ⟨hnone', rfl, hstopping⟩ := hquiet hnone
    rw [hpending, List.append_nil, hstopping] at hsome
    refine hwoken ?_ hnone'
    rcases hsome with hwake | hstop | hstopping
    · exact Or.inl (List.mem_cons_of_mem _ hwake)
    · exact Or.inr (Or.inl (List.mem_cons_of_mem _ hstop))
    · exact Or.inr (Or.inr hstopping)
  · intro i task hfresh other hother
    rw [hround'] at hother
    exact htracks.first hfresh other (hround ▸ List.mem_cons_of_mem _ hother)
  · intro i task hfresh hmem
    rw [hqueue] at hmem
    rcases List.mem_append.mp hmem with hold | hnow
    · exact htracks.later hfresh hold
    · cases hnew _ hnow

/-- The next round begins where the course is. -/
theorem nextRound (htracks : Tracks limit loop course) (hround : loop.round = [])
    {due rest : List (Nat × Nat)} (htimers : loop.timers = due ++ rest) (state : σ) :
    Tracks limit
      { loop with
        round := loop.queue ++ (due.map Prod.snd).map .task
        queue := []
        timers := rest } { course with state } := by
  have hagenda := htracks.agenda
  have hcalled := htracks.called
  have hfailure := htracks.failure
  have hwoken := htracks.woken
  rw [pending, hround, List.nil_append] at hagenda hcalled hfailure hwoken
  rw [htimers, List.map_append] at hagenda
  have hsuspended : ∀ i ∈ due.map Prod.snd,
      ∃ rest, course.pool.tasks[i]? = some (.suspended rest) :=
    fun i hi => hagenda.timed i (List.mem_append_left _ hi)
  have hcalledNew : ((due.map Prod.snd).map Entry.task).filterMap course.pool.called? = [] := by
    refine List.filterMap_eq_nil_iff.mpr fun other hother => ?_
    obtain ⟨i, hi, rfl⟩ := List.mem_map.mp hother
    obtain ⟨rest, hrest⟩ := hsuspended i hi
    simp [Pool.called?, hrest]
  have hreportedNew :
      ((due.map Prod.snd).map Entry.task).findSome? course.pool.reported? = none := by
    refine List.findSome?_eq_none_iff.mpr fun other hother => ?_
    obtain ⟨i, -, rfl⟩ := List.mem_map.mp hother
    rfl
  have hmem : ∀ {other : Entry}, (∀ i, other ≠ .task i) →
      other ∈ loop.queue ++ (due.map Prod.snd).map .task ++ [] → other ∈ loop.queue := by
    intro other hother hall
    rw [List.append_nil] at hall
    rcases List.mem_append.mp hall with hold | hnew
    · exact hold
    · obtain ⟨i, -, rfl⟩ := List.mem_map.mp hnew
      exact absurd rfl (hother i)
  refine ⟨htracks.pool, ?_, ?_, ?_, ?_, ?_, ?_, ?_⟩
  · obtain ⟨begun, handed, asked, horderly⟩ := htracks.orderly
    exact ⟨begun, handed, asked, horderly.lined, horderly.starts, horderly.endings⟩
  · rw [pending, List.append_nil]
    exact hagenda.wakeUp
  · rw [pending, List.append_nil, List.filterMap_append, hcalledNew, List.append_nil]
    exact hcalled
  · rw [pending, List.append_nil, List.findSome?_append, hreportedNew, Option.or_none]
    exact hfailure
  · rintro (hwake | hstop | hstopping)
    · exact hwoken (Or.inl (hmem (by simp) hwake))
    · exact hwoken (Or.inr (Or.inl (hmem (by simp) hstop)))
    · exact hwoken (Or.inr (Or.inr hstopping))
  · intro i task hfresh
    exact absurd (hagenda.mem_of_fresh hfresh) (htracks.later hfresh)
  · intro i task _ hnone
    cases hnone

end Tracks

/-- How far an entry that resumes nobody is from the end of the loop. -/
def weight : Entry → Nat
  | .report _ => 3
  | .wake => 2
  | .stop => 1
  | _ => 0

def burden : List Entry → Nat
  | [] => 0
  | entry :: entries => weight entry + burden entries

theorem burden_append (entries others : List Entry) :
    burden (entries ++ others) = burden entries + burden others := by
  induction entries with
  | nil => simp [burden]
  | cons entry entries ih =>
      simp only [List.cons_append, burden, ih]
      omega

theorem burden_due (due : List Nat) : burden (due.map .task) = 0 := by
  induction due with
  | nil => rfl
  | cons i due ih => simp [burden, weight, ih]

/-- How far a loop is from the next turn, or from its end. -/
def distance (loop : Loop τ ρ ε) : Nat :=
  2 * burden loop.pending + if loop.round.isEmpty then 1 else 0

theorem distance_nextRound (hround : loop.round = []) {due : List Nat} {loop' : Loop τ ρ ε}
    (hround' : loop'.round = loop.queue ++ due.map .task) (hqueue : loop'.queue = [])
    (hsome : loop'.round ≠ []) : loop'.distance < loop.distance := by
  have hempty : loop'.round.isEmpty = false := by simpa using hsome
  simp only [distance, pending, hround, hqueue, hempty, List.append_nil, List.nil_append]
  rw [hround', burden_append, burden_due]
  simp

theorem distance_of_skip {entry : Entry} {rest new : List Entry} {loop' : Loop τ ρ ε}
    (hround : loop.round = entry :: rest) (hround' : loop'.round = rest)
    (hqueue : loop'.queue = loop.queue ++ new) (hnew : burden new < weight entry) :
    loop'.distance < loop.distance := by
  simp only [distance, pending, hround, hround', hqueue, burden_append, burden, List.cons_append,
    List.isEmpty_cons]
  split_ifs <;> omega

namespace Tracks

/-- A step of a loop is a step of its course, or brings the loop nearer to one. -/
theorem step {world : σ → σ → Prop} (htracks : Tracks limit loop course)
    (hidle : loop.isIdle = false) (helapse : ∀ n s, world s (clock.elapse n s))
    (hclock : ∀ n s, clock.now (clock.elapse n s) = clock.now s + n)
    (hprompt : ∀ next, course.Resume routine next → ∀ turn ∈ next.turns,
      turn.outcome ≠ .paused none) :
    (∃ next, course.Resume routine next ∧
        Tracks limit (loop.step routine clock course.state).1 next ∧
        (loop.step routine clock course.state).2 = next.state) ∨
      (∃ state, Passes world course.state state ∧
        Tracks limit (loop.step routine clock course.state).1 { course with state } ∧
        (loop.step routine clock course.state).2 = state ∧
        (loop.step routine clock course.state).1.distance < loop.distance) := by
  cases hround : loop.round with
  | nil =>
      obtain ⟨n, due, rest, htimers, heq, hdue, -⟩ := exists_nextRound clock loop course.state
      have hstep : loop.step routine clock course.state =
          Loop.nextRound clock loop course.state := by
        rw [Loop.step, hround]
      have hbegins : loop.queue ++ (due.map Prod.snd).map Entry.task ≠ [] := by
        intro hnone
        obtain ⟨hqueue, hnew⟩ := List.append_eq_nil_iff.mp hnone
        have hdone : due = [] := by simpa using hnew
        have htimers' : loop.timers ≠ [] := by
          intro htimers
          simp [isIdle, hround, hqueue, htimers] at hidle
        exact hdue hclock hqueue htimers' hdone
      rw [hstep, heq]
      exact Or.inr ⟨_, .single (helapse n course.state), htracks.nextRound hround htimers _, rfl,
        distance_nextRound hround rfl rfl hbegins⟩
  | cons entry rest =>
      have hstep : loop.step routine clock course.state =
          Loop.take routine clock entry { loop with round := rest } course.state := by
        rw [Loop.step, hround]
      have hfailed := htracks.failure
      have hwoken := htracks.woken
      rw [pending, hround, List.cons_append] at hfailed hwoken
      rw [hstep]
      cases entry with
      | task i => exact Or.inl (htracks.resume hround rfl hprompt)
      | again i => exact Or.inl (htracks.resume hround rfl hprompt)
      | report i =>
          refine Or.inr ⟨course.state, .refl, ?_⟩
          have hreported : course.pool.reported? (.report i) = loop.pool.failureOf i := by
            rw [htracks.pool]
            rfl
          rw [List.findSome?_cons, hreported] at hfailed
          simp only [Loop.take]
          cases hfailure : loop.failure with
          | some failure =>
              refine ⟨htracks.skip hround rfl rfl rfl rfl (List.append_nil _).symm (by simp) ?_
                (by simp [hfailure]), rfl,
                distance_of_skip hround rfl (List.append_nil _).symm (by simp [burden, weight])⟩
              rw [hfailed, hfailure]
              rfl
          | none =>
              rw [hfailure, Option.none_or] at hfailed
              cases hfirst : loop.pool.failureOf i with
              | some failure =>
                  rw [hfirst] at hfailed
                  exact ⟨htracks.skip hround rfl rfl rfl rfl rfl (by simp [Entry.subject?]) hfailed
                    (by simp), rfl, distance_of_skip hround rfl rfl (by simp [burden, weight])⟩
              | none =>
                  rw [hfirst] at hfailed
                  refine ⟨htracks.skip hround rfl rfl rfl rfl (List.append_nil _).symm (by simp) ?_
                    (by simp [hfailure]), rfl,
                    distance_of_skip hround rfl (List.append_nil _).symm (by simp [burden, weight])⟩
                  rw [hfailed]
                  rfl
      | wake =>
          have hfailure := hwoken (Or.inl List.mem_cons_self)
          refine Or.inr ⟨course.state, .refl, ?_, rfl,
            distance_of_skip hround rfl rfl (by simp [burden, weight])⟩
          exact htracks.skip hround rfl rfl rfl rfl rfl (by simp [Entry.subject?]) hfailed
            fun hnone => absurd hnone hfailure
      | stop =>
          have hfailure := hwoken (Or.inr (Or.inl List.mem_cons_self))
          refine Or.inr ⟨course.state, .refl, ?_, rfl,
            distance_of_skip hround rfl (List.append_nil _).symm (by simp [burden, weight])⟩
          exact htracks.skip hround rfl rfl rfl rfl (List.append_nil _).symm (by simp) hfailed
            fun hnone => absurd hnone hfailure

end Tracks

/-! ## Whole runs -/

theorem run_of_idle (routine : Coroutine σ τ ρ ε) (clock : Clock σ) (hidle : loop.isIdle = true)
    (s : σ) : run routine clock loop s = some (loop, s) :=
  repeatUntil_of_done hidle

theorem run_of_not_idle (routine : Coroutine σ τ ρ ε) (clock : Clock σ)
    (hidle : loop.isIdle = false) (s : σ) :
    run routine clock loop s =
      run routine clock (loop.step routine clock s).1 (loop.step routine clock s).2 :=
  repeatUntil_of_not_done hidle

/-- The first round holds the entries of all tasks. -/
theorem tracks_ofTasks (tasks : List τ) (limit : Option Int) (state : σ) :
    Tracks (seatLimit limit)
      ({ pool := Pool.ofTasks tasks limit, round := (List.range tasks.length).map .task } :
        Loop τ ρ ε) (Course.ofTasks tasks limit state) := by
  have hfresh : ∀ i, i < tasks.length → ∃ task,
      (Pool.ofTasks tasks limit : Pool τ ρ ε).tasks[i]? = some (.fresh task) := by
    intro i hi
    exact ⟨tasks[i], by simp [Pool.ofTasks, hi]⟩
  have hcount : ∀ i, ((List.range tasks.length).map Entry.task).countP
      (fun entry => entry.resumed? == some i) = (List.range tasks.length).count i := by
    intro i
    rw [List.countP_map, List.count]
    rfl
  refine ⟨rfl, ⟨0, 0, 0, Course.orderly_ofTasks tasks limit state⟩, ⟨fun i => ?_, ?_, by simp⟩,
    ?_, ?_, ?_, ?_, by simp⟩
  · rw [pending, List.append_nil, hcount]
    show _ + ([] : List Nat).count i = ((Pool.ofTasks tasks limit : Pool τ ρ ε).ready i).toNat
    by_cases hi : i < tasks.length
    · obtain ⟨task, htask⟩ := hfresh i hi
      rw [Pool.ready_of_status htask, List.count_eq_one_of_mem List.nodup_range
        (List.mem_range.mpr hi)]
      rfl
    · have hnone : (Pool.ofTasks tasks limit : Pool τ ρ ε).ready i = false := by
        simp [Pool.ready, Pool.ofTasks, hi]
      rw [hnone, List.count_eq_zero.mpr fun hmem => hi (List.mem_range.mp hmem)]
      rfl
  · intro entry hentry
    rw [pending, List.append_nil] at hentry
    obtain ⟨i, -, rfl⟩ := List.mem_map.mp hentry
    trivial
  · show List.range tasks.length = _
    rw [pending, List.append_nil, List.filterMap_map]
    refine (List.filterMap_some.symm.trans (List.filterMap_congr fun i hi => ?_))
    obtain ⟨task, htask⟩ := hfresh i (List.mem_range.mp hi)
    show some i = (Pool.ofTasks tasks limit : Pool τ ρ ε).called? (.task i)
    rw [Pool.called?, htask]
  · rw [pending, List.append_nil, Option.none_or]
    refine (List.findSome?_eq_none_iff.mpr fun entry hentry => ?_).symm
    obtain ⟨i, -, rfl⟩ := List.mem_map.mp hentry
    rfl
  · intro hsome
    simp [pending] at hsome
  · intro i task _ entry hentry
    obtain ⟨j, hj, rfl⟩ := List.mem_map.mp hentry
    obtain ⟨task', htask'⟩ := hfresh j (List.mem_range.mp hj)
    exact ⟨j, task', rfl, htask'⟩

theorem exists_run_ofTasks (routine : Coroutine σ τ ρ ε) (clock : Clock σ) (tasks : List τ)
    (limit : Option Int) (s : σ) :
    ∃ state, (state = s ∨ state = clock.elapse 0 s) ∧
      run routine clock (ofPool (Pool.ofTasks tasks limit)) s =
        run routine clock
          { pool := Pool.ofTasks tasks limit, round := (List.range tasks.length).map .task }
          state := by
  cases tasks with
  | nil => exact ⟨s, Or.inl rfl, rfl⟩
  | cons task tasks =>
      refine ⟨clock.elapse 0 s, Or.inr rfl, ?_⟩
      have hidle : (ofPool (Pool.ofTasks (task :: tasks) limit : Pool τ ρ ε)).isIdle = false := by
        simp [isIdle, ofPool, Pool.ofTasks]
      have hagain : (ofPool (Pool.ofTasks (task :: tasks) limit : Pool τ ρ ε)).queue.any isAgain =
          false := by
        simp [ofPool, isAgain]
      have hsome : (ofPool (Pool.ofTasks (task :: tasks) limit : Pool τ ρ ε)).queue.isEmpty =
          false := by
        simp [ofPool, Pool.ofTasks]
      have hstep : (ofPool (Pool.ofTasks (task :: tasks) limit : Pool τ ρ ε)).step routine clock s =
          ({ pool := Pool.ofTasks (task :: tasks) limit,
             round := (List.range (task :: tasks).length).map .task }, clock.elapse 0 s) := by
        show nextRound clock _ s = _
        rw [nextRound, hsome, hagain]
        simp [ofPool, Pool.ofTasks]
      rw [run_of_not_idle routine clock hidle, hstep]

end Loop

theorem Course.reaches_world {routine : Coroutine σ τ ρ ε} {world : σ → σ → Prop}
    {course : Course σ τ ρ ε} {state : σ}
    (hworld : Passes world course.state state) :
    Course.Reaches routine world course { course with state } := by
  induction hworld with
  | refl => exact .refl
  | tail _ hstep ih => exact ih.tail (.world hstep)

namespace Loop

variable {routine : Coroutine σ τ ρ ε} {world : σ → σ → Prop} {clock : Clock σ}
  {limit : Option Nat} {loop : Loop τ ρ ε} {course : Course σ τ ρ ε}

/-- Where a course can go on only finitely often, the loop comes to its end. -/
theorem Tracks.exists_run (helapse : ∀ n s, world s (clock.elapse n s))
    (hclock : ∀ n s, clock.now (clock.elapse n s) = clock.now s + n)
    (hacc : Acc (Course.Follows routine world) course)
    (hprompt : ∀ next, Course.Reaches routine world course next → ∀ turn ∈ next.turns,
      turn.outcome ≠ .paused none) (htracks : Tracks limit loop course) :
    ∃ last next, run routine clock loop course.state = some (last, next.state) ∧
      Course.Reaches routine world course next ∧ Tracks limit last next ∧ last.isIdle = true := by
  induction hacc generalizing loop with
  | intro course _ ih =>
      -- between two turns the state may change, but the loop comes nearer to the next turn
      have hbetween : ∀ distance state (loop : Loop τ ρ ε), loop.distance = distance →
          Passes world course.state state →
          Tracks limit loop { course with state } →
          ∃ last next, run routine clock loop state = some (last, next.state) ∧
            Course.Reaches routine world course next ∧ Tracks limit last next ∧
            last.isIdle = true := by
        intro distance
        induction distance using Nat.strongRecOn with
        | ind distance ihdistance =>
            intro state loop hdistance hworld htracks
            have hreaches : Course.Reaches routine world course { course with state } :=
              Course.reaches_world hworld
            cases hidle : loop.isIdle with
            | true =>
                exact ⟨loop, _, run_of_idle routine clock hidle state, hreaches, htracks, hidle⟩
            | false =>
                have hprompt' : ∀ next, Course.Resume routine { course with state } next →
                    ∀ turn ∈ next.turns, turn.outcome ≠ .paused none :=
                  fun next hresume => hprompt next (hreaches.tail (.resume hresume))
                rw [run_of_not_idle routine clock hidle]
                rcases htracks.step hidle helapse hclock hprompt' with
                  ⟨next, hresume, hnext, hstate⟩ | ⟨state', hworld', hnext, hstate, hless⟩
                · have hfollows : Course.Follows routine world next course :=
                    ⟨state, hworld, hresume⟩
                  have hstep : Course.Reaches routine world course next :=
                    hreaches.tail (.resume hresume)
                  obtain ⟨last, final, hrun, hfinal, htracks', hidle'⟩ :=
                    ih next hfollows (fun other hother => hprompt other (hstep.trans hother)) hnext
                  dsimp only at hstate
                  rw [hstate]
                  exact ⟨last, final, hrun, hstep.trans hfinal, htracks', hidle'⟩
                · dsimp only at hstate hless
                  rw [hstate]
                  exact ihdistance _ (hdistance ▸ hless) state' _ rfl (hworld.trans hworld') hnext
      exact hbetween _ course.state loop rfl .refl htracks

/-- Where nothing is left to do, a failure has been reported, or every task has ended. -/
theorem Tracks.over (htracks : Tracks limit loop course) (hlimit : limit ≠ some 0)
    (hidle : loop.isIdle = true) :
    course.failure = loop.failure ∧ (loop.failure = none → course.Over) := by
  simp only [isIdle, Bool.and_eq_true, Bool.or_eq_true, List.isEmpty_iff] at hidle
  obtain ⟨hround, hrest⟩ := hidle
  cases hfailure : loop.failure with
  | some failure =>
      refine ⟨?_, fun hnone => by cases hnone⟩
      rw [htracks.failure, hfailure]
      rfl
  | none =>
      have hstopping : loop.stopping ≠ true := fun hstopping =>
        htracks.woken (Or.inr (Or.inr hstopping)) hfailure
      obtain ⟨hqueue, htimers⟩ := hrest.resolve_left hstopping
      have hpending : loop.pending = [] := by rw [pending, hround, hqueue, List.append_nil]
      have hagenda := htracks.agenda
      rw [hpending, htimers] at hagenda
      refine ⟨?_, fun _ status hstatus => ?_⟩
      · rw [htracks.failure, hfailure, hpending]
        rfl
      · obtain ⟨i, hi⟩ := List.mem_iff_getElem?.mp hstatus
        obtain ⟨_, _, _, horderly⟩ := htracks.orderly
        cases htask : status.task? with
        | none =>
            cases status with
            | ended ending => exact ⟨ending, rfl⟩
            | _ => cases htask
        | some task =>
            obtain ⟨j, called', hdue⟩ := horderly.lined.exists_due hlimit hi htask
            have hcalled := htracks.called
            rw [hpending] at hcalled
            rw [hcalled] at hdue
            cases hdue with
            | goOn _ hsuspended =>
                have hcount := hagenda.ready j
                rw [Pool.ready_of_status hsuspended] at hcount
                cases hcount

end Loop

theorem Course.acc_world {routine : Coroutine σ τ ρ ε} {world : σ → σ → Prop}
    {course : Course σ τ ρ ε} {state : σ}
    (hworld : Passes world course.state state)
    (hacc : Acc (Course.Follows routine world) course) :
    Acc (Course.Follows routine world) { course with state } := by
  refine ⟨_, fun next hfollows => ?_⟩
  obtain ⟨between, hbetween, hresume⟩ := hfollows
  exact hacc.inv ⟨between, hworld.trans hbetween, hresume⟩

theorem seatLimit_ne_zero (limit : Option Int) : seatLimit limit ≠ some 0 := by
  intro hzero
  simp only [seatLimit, Option.bind_eq_some_iff] at hzero
  obtain ⟨n, -, hn⟩ := hzero
  split_ifs at hn with hpos
  simp only [Option.some.injEq] at hn
  omega

/-- If none has failed, the results of a pool whose tasks have all ended are theirs. -/
theorem Course.exists_results {limit : Option Nat} {course : Course σ τ ρ ε}
    {begun handed asked : Nat} (horderly : course.Orderly limit begun handed asked)
    (hover : course.Over) (hfailure : course.failure = none) :
    ∃ results, course.pool.results? = some results ∧
      course.pool.tasks = results.map fun result => .ended (.ok result) := by
  have hgood : ∀ status ∈ course.pool.tasks, ∃ result, status = .ended (.ok result) := by
    intro status hstatus
    obtain ⟨ending, rfl⟩ := hover status hstatus
    cases ending with
    | ok result => exact ⟨result, rfl⟩
    | error failure =>
        obtain ⟨i, hi⟩ := List.mem_iff_getElem?.mp hstatus
        exact absurd hi (horderly.failure_eq_none_iff.mp hfailure i failure)
  have hall : ∀ statuses : List (Status τ ρ ε),
      (∀ status ∈ statuses, ∃ result, status = .ended (.ok result)) →
        ∃ results : List ρ, statuses = results.map fun result => .ended (.ok result) := by
    intro statuses hstatuses
    induction statuses with
    | nil => exact ⟨[], rfl⟩
    | cons status statuses ih =>
        obtain ⟨result, rfl⟩ := hstatuses status List.mem_cons_self
        obtain ⟨results, rfl⟩ := ih fun other hother =>
          hstatuses other (List.mem_cons_of_mem _ hother)
        exact ⟨result :: results, rfl⟩
  obtain ⟨results, hresults⟩ := hall course.pool.tasks hgood
  refine ⟨results, ?_, hresults⟩
  rw [Pool.results?, hresults]
  clear hresults
  induction results with
  | nil => rfl
  | cons result results ih =>
      rw [List.map_cons, List.mapM_cons, ih]
      rfl

theorem Course.Over.cancelAll {course : Course σ τ ρ ε} (hover : course.Over)
    (routine : Coroutine σ τ ρ ε) (s : σ) : course.pool.cancelAll routine s = s := by
  have hall : ∀ statuses : List (Status τ ρ ε), (∀ status ∈ statuses, ∃ ending, status =
      .ended ending) → statuses.foldl (Pool.cancelOne routine) s = s := by
    intro statuses hstatuses
    induction statuses with
    | nil => rfl
    | cons status statuses ih =>
        obtain ⟨ending, rfl⟩ := hstatuses status List.mem_cons_self
        exact ih fun other hother => hstatuses other (List.mem_cons_of_mem _ hother)
  exact hall course.pool.tasks hover

section

variable {routine : Coroutine σ τ ρ ε} {world : σ → σ → Prop} {clock : Clock σ} {tasks : List τ}
  {limit : Option Int} {s : σ}

/-- Where the tasks can take only finitely many turns, the loop comes to its end, and on its way it
follows a course. -/
theorem exists_course_run (helapse : ∀ n s, world s (clock.elapse n s))
    (hclock : ∀ n s, clock.now (clock.elapse n s) = clock.now s + n)
    (hacc : Acc (Course.Follows routine world) (Course.ofTasks tasks limit s))
    (hprompt : ∀ next, Course.Reaches routine world (.ofTasks tasks limit s) next →
      ∀ turn ∈ next.turns, turn.outcome ≠ .paused none) :
    ∃ last course,
      Loop.run routine clock (Loop.ofPool (Pool.ofTasks tasks limit)) s =
          some (last, course.state) ∧
        Course.Reaches routine world (.ofTasks tasks limit s) course ∧
        Loop.Tracks (seatLimit limit) last course ∧ last.isIdle = true := by
  obtain ⟨state, hstate, hfirst⟩ := Loop.exists_run_ofTasks routine clock tasks limit s
  have hworld : Passes world s state := by
    rcases hstate with rfl | rfl
    · exact .refl
    · exact .single (helapse 0 s)
  have hstart : Course.Reaches routine world (.ofTasks tasks limit s)
      (.ofTasks tasks limit state : Course σ τ ρ ε) :=
    Course.reaches_world hworld
  have hacc' : Acc (Course.Follows routine world) (Course.ofTasks tasks limit state) :=
    Course.acc_world hworld hacc
  obtain ⟨last, course, hrun, hreaches, htracks, hidle⟩ :=
    (Loop.tracks_ofTasks tasks limit state).exists_run helapse hclock hacc'
      fun next hnext => hprompt next (hstart.trans hnext)
  exact ⟨last, course, hfirst.trans hrun, hstart.trans hreaches, htracks, hidle⟩

/-- If a task has failed in the course that a loop has followed, the run fails as that one did that
was the first; else the results are those with which the tasks have ended. -/
theorem Loop.Tracks.runPool_eq {last : Loop τ ρ ε} {course : Course σ τ ρ ε}
    (htracks : Loop.Tracks (seatLimit limit) last course) (hidle : last.isIdle = true)
    (hrun : Loop.run routine clock (Loop.ofPool (Pool.ofTasks tasks limit)) s =
      some (last, course.state)) :
    (∀ failure, course.failure = some failure →
      (runPool routine clock tasks limit s).1 = .error (some failure)) ∧
    (course.failure = none → ∃ results,
      runPool routine clock tasks limit s = (.ok results, course.state) ∧
      course.pool.tasks = results.map fun result => .ended (.ok result)) := by
  obtain ⟨hfailure, hover⟩ := htracks.over (seatLimit_ne_zero limit) hidle
  refine ⟨fun failure hfailed => ?_, fun hnone => ?_⟩
  · rw [runPool, hrun]
    simp only [← hfailure, hfailed]
  · obtain ⟨_, _, _, horderly⟩ := htracks.orderly
    have hended := hover (hfailure.symm.trans hnone)
    obtain ⟨results, hresults, htasks⟩ := Course.exists_results horderly hended hnone
    refine ⟨results, ?_, htasks⟩
    rw [runPool, hrun]
    simp only [← hfailure, hnone, htracks.pool, hresults, hended.cancelAll]

theorem exists_course_runPool (helapse : ∀ n s, world s (clock.elapse n s))
    (hclock : ∀ n s, clock.now (clock.elapse n s) = clock.now s + n)
    (hacc : Acc (Course.Follows routine world) (Course.ofTasks tasks limit s))
    (hprompt : ∀ next, Course.Reaches routine world (.ofTasks tasks limit s) next →
      ∀ turn ∈ next.turns, turn.outcome ≠ .paused none) :
    ∃ course, Course.Reaches routine world (.ofTasks tasks limit s) course ∧
      (∀ failure, course.failure = some failure →
        (runPool routine clock tasks limit s).1 = .error (some failure)) ∧
      (course.failure = none → ∃ results,
        runPool routine clock tasks limit s = (.ok results, course.state) ∧
        course.pool.tasks = results.map fun result => .ended (.ok result)) := by
  obtain ⟨last, course, hrun, hreaches, htracks, hidle⟩ :=
    exists_course_run helapse hclock hacc hprompt
  exact ⟨course, hreaches, htracks.runPool_eq hidle hrun⟩

end

end BuildRunner.Schedule
