import BuildRunner.Proofs.Schedule.Following
import Mathlib.Algebra.GroupWithZero.Nat

/-!
# Loops that wait

A task may be resumed any number of times before what it waits for has happened.  A loop with such
tasks comes to its end all the same if it is time that brings them nearer to it: between two turns
of a task time passes, and a turn that changes nothing is taken only while something is still to
happen.
-/

namespace BuildRunner.Schedule

variable {σ τ ρ ε : Type}

/-- How far a task is from its end, as its status tells. -/
def Status.rank : Status τ ρ ε → Nat
  | .fresh _ => 3
  | .blocked _ => 2
  | .granted _ => 2
  | .suspended _ => 1
  | .ended _ => 0

namespace Pool

def rank (pool : Pool τ ρ ε) : Nat := (pool.tasks.map Status.rank).sum

theorem rank_setStatus (pool : Pool τ ρ ε) {index : Nat} {old : Status τ ρ ε}
    (hold : pool.tasks[index]? = some old) (status : Status τ ρ ε) :
    (pool.setStatus index status).rank + old.rank = pool.rank + status.rank := by
  obtain ⟨hlt, hget⟩ := List.getElem?_eq_some_iff.mp hold
  have hsplit : pool.tasks = pool.tasks.take index ++ old :: pool.tasks.drop (index + 1) := by
    rw [← hget, List.getElem_cons_drop, List.take_append_drop]
  have hset : pool.tasks.set index status =
      pool.tasks.take index ++ status :: pool.tasks.drop (index + 1) :=
    List.set_eq_take_append_cons_drop.trans (if_pos hlt)
  unfold rank setStatus
  dsimp only
  rw [hset]
  conv_rhs => rw [hsplit]
  simp only [List.map_append, List.map_cons, List.sum_append, List.sum_cons]
  omega

theorem rank_release (pool : Pool τ ρ ε) : pool.release.1.rank = pool.rank := by
  unfold release
  split
  · rfl
  · rfl
  · next next rest _ _ =>
      dsimp only
      split
      · next task hblocked =>
          have hset : (setStatus { pool with waiters := rest } next (.granted task)).rank + 2 =
              pool.rank + 2 := rank_setStatus { pool with waiters := rest } hblocked (.granted task)
          exact Nat.add_right_cancel hset
      · rfl

variable {routine : Coroutine σ τ ρ ε} {pool : Pool τ ρ ε} {index : Nat} {s : σ}

/-- A turn after which the task is suspended as it was before brings the pool no nearer to its
end. -/
inductive Polls (routine : Coroutine σ τ ρ ε) (pool : Pool τ ρ ε) (index : Nat) (s : σ) :
    Pool τ ρ ε × σ × List Wake → Prop
  | intro {task rest : τ} {delay : Option Nat} {s' : σ}
      (htask : pool.tasks[index]? = some (.suspended task))
      (hturn : routine.resume task s = (.ok (.paused delay rest), s')) :
      Polls routine pool index s
        (pool.setStatus index (.suspended rest), s', [.paused index delay])

theorem Polls.exists_task {outcome : Pool τ ρ ε × σ × List Wake}
    (hpolls : Polls routine pool index s outcome) :
    ∃ task, pool.tasks[index]? = some (.suspended task) := by
  cases hpolls with
  | intro htask _ => exact ⟨_, htask⟩

theorem rank_run {task : τ} {status : Status τ ρ ε} (hstatus : pool.tasks[index]? = some status)
    (hlive : 0 < status.rank) (hunbegun : 1 < status.rank ∨ status = .suspended task) :
    (pool.run routine index task s).1.rank < pool.rank ∨
      Polls routine pool index s (pool.run routine index task s) := by
  rcases hturn : routine.resume task s with ⟨failure | (result | ⟨delay, rest⟩), s'⟩
  · have hset : _ + status.rank = pool.rank + 0 :=
      pool.rank_setStatus hstatus (.ended (.error failure))
    rw [run_of_ended hturn rfl, rank_release]
    exact Or.inl (by omega)
  · have hset : _ + status.rank = pool.rank + 0 :=
      pool.rank_setStatus hstatus (.ended (.ok result))
    rw [run_of_ended hturn rfl, rank_release]
    exact Or.inl (by omega)
  · have hset : _ + status.rank = pool.rank + 1 := pool.rank_setStatus hstatus (.suspended rest)
    rw [run_of_paused hturn]
    rcases hunbegun with hunbegun | rfl
    · exact Or.inl (show (pool.setStatus index (.suspended rest)).rank < pool.rank by omega)
    · exact Or.inr (.intro hstatus hturn)

/-- Resuming a task brings the pool nearer to its end, or has no effect, or is a poll. -/
theorem rank_resume (routine : Coroutine σ τ ρ ε) (pool : Pool τ ρ ε) (index : Nat) (s : σ) :
    (pool.resume routine index s).1.rank < pool.rank ∨
      pool.resume routine index s = (pool, s, []) ∨
      Polls routine pool index s (pool.resume routine index s) := by
  unfold resume
  split
  · next task hfresh =>
      split
      · exact (rank_run hfresh (by simp [Status.rank]) (Or.inl (by simp [Status.rank]))).imp_right
          Or.inr
      · next n _ _ =>
          rcases @rank_run _ _ _ _ routine { pool with free := some n } index s task _ hfresh
            (by simp [Status.rank]) (Or.inl (by simp [Status.rank])) with hless | hpolls
          · exact Or.inl hless
          · obtain ⟨other, hsuspended⟩ := hpolls.exists_task
            exact absurd (hfresh.symm.trans hsuspended) (by simp)
      · have hset : _ + 3 = pool.rank + 2 := pool.rank_setStatus hfresh (.blocked task)
        exact Or.inl (show (pool.setStatus index (.blocked task)).rank < pool.rank by omega)
  · next task hgranted =>
      exact (rank_run hgranted (by simp [Status.rank]) (Or.inl (by simp [Status.rank]))).imp_right
        Or.inr
  · next task hsuspended =>
      exact (rank_run hsuspended (by simp [Status.rank]) (Or.inr rfl)).imp_right Or.inr
  · exact Or.inr (Or.inl rfl)

end Pool

namespace Loop

/-- The number of entries that resume a task. -/
def resumers (entries : List Entry) : Nat := entries.countP fun entry => entry.resumed?.isSome

theorem resumers_append (entries others : List Entry) :
    resumers (entries ++ others) = resumers entries + resumers others := List.countP_append

theorem resumers_tasks (due : List Nat) : resumers (due.map .task) = due.length := by
  rw [resumers, List.countP_eq_length.mpr, List.length_map]
  intro entry hentry
  obtain ⟨i, -, rfl⟩ := List.mem_map.mp hentry
  rfl

/-- The entries that do not wait for time to pass. -/
def prompt (entries : List Entry) : List Entry := entries.filter fun entry => !isAgain entry

theorem prompt_append (entries others : List Entry) :
    prompt (entries ++ others) = prompt entries ++ prompt others := List.filter_append ..

theorem prompt_of_none {entries : List Entry} (hnone : entries.any isAgain = false) :
    prompt entries = entries := by
  rw [prompt, List.filter_eq_self]
  intro entry hentry
  rw [List.any_eq_false] at hnone
  simpa using hnone entry hentry

/-- All that can lead to turns. -/
def chances (loop : Loop τ ρ ε) : Nat :=
  resumers loop.round + resumers loop.queue + loop.timers.length

/-- What can lead to turns before time passes. -/
def chancesAt (now : Nat) (loop : Loop τ ρ ε) : Nat :=
  resumers loop.round + resumers (prompt loop.queue) +
    loop.timers.countP fun timer => decide (timer.1 ≤ now)

variable {routine : Coroutine σ τ ρ ε} {clock : Clock σ} {loop : Loop τ ρ ε} {s : σ}

/-- What a step of a loop does: a task is resumed, or the loop comes nearer to that, at once or
after a time. -/
inductive Stepped (routine : Coroutine σ τ ρ ε) (clock : Clock σ) (loop : Loop τ ρ ε) (s : σ) :
    Loop τ ρ ε × σ → Prop
  | turn {entry : Entry} {rest : List Entry} {i : Nat} (hround : loop.round = entry :: rest)
      (hresumed : entry.resumed? = some i) :
      Stepped routine clock loop s (Loop.resume routine clock i { loop with round := rest } s)
  | nearer {n : Nat} {loop' : Loop τ ρ ε} (hpool : loop'.pool = loop.pool)
      (hchances : loop'.chances = loop.chances)
      (hnow : n = 0 → loop'.chancesAt (clock.now s) = loop.chancesAt (clock.now s))
      (hless : loop'.distance < loop.distance) :
      Stepped routine clock loop s (loop', clock.elapse n s)

section

variable (hstill : ∀ s, clock.elapse 0 s = s)

include hstill

/-- An entry that resumes nobody is taken at once. -/
theorem stepped_skip {entry : Entry} {rest new : List Entry} {loop' : Loop τ ρ ε}
    (hround : loop.round = entry :: rest) (hnobody : entry.resumed? = none)
    (hpool : loop'.pool = loop.pool) (hround' : loop'.round = rest)
    (hqueue : loop'.queue = loop.queue ++ new) (htimers : loop'.timers = loop.timers)
    (hnew : ∀ entry ∈ new, entry.resumed? = none) (hburden : burden new < weight entry) :
    Stepped routine clock loop s (loop', s) := by
  have hfirst : resumers loop.round = resumers rest := by
    rw [hround, resumers, List.countP_cons_of_neg (by simp [hnobody])]
    rfl
  have hnone : ∀ entries : List Entry, (∀ entry ∈ entries, entry.resumed? = none) →
      resumers entries = 0 := by
    intro entries hentries
    refine List.countP_eq_zero.mpr fun entry hentry => ?_
    rw [hentries entry hentry]
    simp
  have hprompt : resumers (prompt new) = 0 :=
    hnone _ fun entry hentry => hnew entry (List.mem_of_mem_filter hentry)
  have hstep : Stepped routine clock loop s (loop', clock.elapse 0 s) := by
    refine .nearer hpool ?_ (fun _ => ?_) (distance_of_skip hround hround' hqueue hburden)
    · rw [chances, chances, hround', hqueue, htimers, hfirst, resumers_append, hnone new hnew,
        Nat.add_zero]
    · rw [chancesAt, chancesAt, hround', hqueue, htimers, hfirst, prompt_append, resumers_append,
        hprompt, Nat.add_zero]
  rwa [hstill] at hstep

theorem stepped_nextRound (hclock : ∀ n s, clock.now (clock.elapse n s) = clock.now s + n)
    (hround : loop.round = []) (hidle : loop.isIdle = false) :
    Stepped routine clock loop s (nextRound clock loop s) := by
  obtain ⟨n, due, rest, htimers, heq, hdue, hagain, hpast⟩ := exists_nextRound clock loop s
  have hbegins : loop.queue ++ (due.map Prod.snd).map Entry.task ≠ [] := by
    intro hnone
    obtain ⟨hqueue, hnew⟩ := List.append_eq_nil_iff.mp hnone
    have htimers' : loop.timers ≠ [] := by
      intro htimers
      simp [isIdle, hround, hqueue, htimers] at hidle
    exact hdue hclock hqueue htimers' (by simpa using hnew)
  rw [heq]
  refine .nearer rfl ?_ (fun hn => ?_) (distance_nextRound hround rfl rfl hbegins)
  · rw [chances, chances, hround, htimers, resumers_append, resumers_tasks, List.length_append,
      List.length_map]
    simp only [resumers, List.countP_nil]
    omega
  · subst hn
    have hall : due.countP (fun timer => decide (timer.1 ≤ clock.now s)) = due.length := by
      rw [List.countP_eq_length]
      intro timer htimer
      have hpassed := hpast timer htimer
      rw [hstill] at hpassed
      simpa using hpassed
    rw [chancesAt, chancesAt, hround, htimers, prompt_of_none (hagain rfl), resumers_append,
      resumers_tasks, List.countP_append, hall, List.length_map]
    simp only [resumers, prompt, List.countP_nil, List.filter_nil]
    omega

theorem stepped_step (hclock : ∀ n s, clock.now (clock.elapse n s) = clock.now s + n)
    (hidle : loop.isIdle = false) :
    Stepped routine clock loop s (loop.step routine clock s) := by
  cases hround : loop.round with
  | nil =>
      have hstep : loop.step routine clock s = nextRound clock loop s := by
        rw [Loop.step, hround]
      rw [hstep]
      exact stepped_nextRound hstill hclock hround hidle
  | cons entry rest =>
      have hstep : loop.step routine clock s =
          Loop.take routine clock entry { loop with round := rest } s := by
        rw [Loop.step, hround]
      rw [hstep]
      cases entry with
      | task i => exact .turn hround rfl
      | again i => exact .turn hround rfl
      | wake =>
          exact stepped_skip hstill hround rfl rfl rfl rfl rfl (by simp [Entry.resumed?])
            (by simp [burden, weight])
      | stop =>
          exact stepped_skip hstill hround rfl rfl rfl (List.append_nil _).symm rfl (by simp)
            (by simp [burden, weight])
      | report i =>
          simp only [Loop.take]
          split
          · exact stepped_skip hstill hround rfl rfl rfl rfl rfl (by simp [Entry.resumed?])
              (by simp [burden, weight])
          · exact stepped_skip hstill hround rfl rfl rfl (List.append_nil _).symm rfl (by simp)
              (by simp [burden, weight])

end

theorem countP_addTimer (p : Nat × Nat → Bool) (time i : Nat) (timers : List (Nat × Nat)) :
    (addTimer time i timers).countP p = ((time, i) :: timers).countP p := by
  induction timers with
  | nil => rfl
  | cons timer timers ih =>
      rw [addTimer]
      split
      · simp only [List.countP_cons] at ih ⊢
        omega
      · rfl

/-- A task that is suspended again can be resumed once time has passed. -/
theorem chancesAt_note (now i : Nat) (delay : Option Nat) (loop : Loop τ ρ ε) :
    (note now loop (.paused i delay)).chancesAt now = loop.chancesAt now := by
  match delay with
  | none => rfl
  | some 0 =>
      have hlater : prompt [Entry.again i] = [] := rfl
      simp only [note, chancesAt, prompt_append, hlater, List.append_nil]
  | some (delay + 1) =>
      simp only [note, chancesAt, countP_addTimer]
      rw [List.countP_cons_of_neg (by simp)]

end Loop

/-! ## Waiting for what time brings -/

namespace Loop

/-- The states on the way of a loop are fine.  While a state is busy time brings it further, which
it can do only finitely often; a turn that suspends a task again changes nothing, and is only taken
in busy states. -/
structure Patient (routine : Coroutine σ τ ρ ε) (clock : Clock σ) (fine : Loop τ ρ ε → σ → Prop)
    (busy : σ → Prop) (further : σ → σ → Prop) : Prop where
  still : ∀ s, clock.elapse 0 s = s
  passes : ∀ n s, clock.now (clock.elapse n s) = clock.now s + n
  step : ∀ {loop : Loop τ ρ ε} {s : σ}, fine loop s → loop.isIdle = false →
    fine (loop.step routine clock s).1 (loop.step routine clock s).2
  polls : ∀ {loop : Loop τ ρ ε} {s s' : σ} {i : Nat} {task rest : τ} {delay : Option Nat},
    fine loop s → loop.pool.tasks[i]? = some (.suspended task) →
      routine.resume task s = (.ok (.paused delay rest), s') → s' = s ∧ busy s
  acc : ∀ {loop : Loop τ ρ ε} {s : σ}, fine loop s → Acc further s
  further : ∀ {loop : Loop τ ρ ε} {s : σ} {n : Nat}, fine loop s → busy s → 0 < n →
    further (clock.elapse n s) s
  idle : ∀ {loop : Loop τ ρ ε} {s : σ} {n : Nat}, fine loop s → ¬busy s → ¬busy (clock.elapse n s)

variable {routine : Coroutine σ τ ρ ε} {clock : Clock σ} {fine : Loop τ ρ ε → σ → Prop}
  {busy : σ → Prop} {further : σ → σ → Prop} {loop : Loop τ ρ ε} {s : σ}

/-- A turn brings the pool nearer to its end, or one that can lead to turns is used up. -/
theorem resume_cases (hpatient : Patient routine clock fine busy further) (hfine : fine loop s)
    {entry : Entry} {rest : List Entry} {i : Nat} (hround : loop.round = entry :: rest)
    (hresumed : entry.resumed? = some i) {loop' : Loop τ ρ ε} {s' : σ}
    (hresume : Loop.resume routine clock i { loop with round := rest } s = (loop', s')) :
    loop'.pool.rank < loop.pool.rank ∨
      loop'.pool.rank = loop.pool.rank ∧ s' = s ∧
        loop'.chancesAt (clock.now s) < loop.chancesAt (clock.now s) ∧
          (busy s ∨ loop'.chances < loop.chances) := by
  have hfirst : resumers loop.round = resumers rest + 1 := by
    rw [hround, resumers, List.countP_cons_of_pos (by simp [hresumed])]
    rfl
  have hused : ∀ now, ({ loop with round := rest } : Loop τ ρ ε).chancesAt now <
      loop.chancesAt now := by
    intro now
    simp only [chancesAt, hfirst]
    omega
  unfold resume at hresume
  dsimp only at hresume
  rcases loop.pool.rank_resume routine i s with hless | hnone | hpolls
  · left
    cases hresume
    rw [pool_foldl_note]
    exact hless
  · right
    rw [hnone] at hresume
    cases hresume
    refine ⟨rfl, rfl, hused _, Or.inr ?_⟩
    show ({ loop with round := rest } : Loop τ ρ ε).chances < loop.chances
    simp only [chances, hfirst]
    omega
  · right
    generalize loop.pool.resume routine i s = outcome at hpolls hresume
    cases hpolls with
    | @intro task again delay t htask hturn =>
        obtain ⟨rfl, hbusy⟩ := hpatient.polls hfine htask hturn
        have hset : _ + 1 = loop.pool.rank + 1 :=
          loop.pool.rank_setStatus htask (.suspended again)
        cases hresume
        refine ⟨?_, rfl, ?_, Or.inl hbusy⟩
        · rw [pool_foldl_note]
          exact Nat.add_right_cancel hset
        · show (note _ _ _).chancesAt _ < _
          rw [chancesAt_note]
          exact hused _

/-- A loop comes to its end if each of its steps lowers a number, or keeps it and brings the loop
nearer to a turn. -/
theorem exists_run_of_lower {P : Loop τ ρ ε → σ → Prop} (number : Loop τ ρ ε → σ → Nat)
    (hstep : ∀ {loop : Loop τ ρ ε} {s : σ} {next : Loop τ ρ ε × σ}, P loop s →
      loop.isIdle = false → loop.step routine clock s = next →
        (∃ last, run routine clock next.1 next.2 = some last) ∨
          P next.1 next.2 ∧ (number next.1 next.2 < number loop s ∨
            number next.1 next.2 = number loop s ∧ next.1.distance < loop.distance))
    (hstart : P loop s) : ∃ last, run routine clock loop s = some last := by
  generalize hnumber : number loop s = count
  induction count using Nat.strongRecOn generalizing loop s with
  | ind count ihcount =>
      generalize hdistance : loop.distance = distance
      induction distance using Nat.strongRecOn generalizing loop s with
      | ind distance ihdistance =>
          cases hidle : loop.isIdle with
          | true => exact ⟨_, run_of_idle routine clock hidle s⟩
          | false =>
              rw [run_of_not_idle routine clock hidle]
              rcases hstep hstart hidle rfl with hends | ⟨hnext, hless | ⟨hsame, hless⟩⟩
              · exact hends
              · exact ihcount _ (hnumber ▸ hless) hnext rfl
              · exact ihdistance _ (hdistance ▸ hless) hnext (hsame.trans hnumber) rfl

/-- A loop with patient tasks comes to its end. -/
theorem exists_run_of_patient (hpatient : Patient routine clock fine busy further)
    (hfine : fine loop s) : ∃ last, run routine clock loop s = some last := by
  -- in the first place the pool comes nearer to its end
  generalize hrank : loop.pool.rank = rank
  induction rank using Nat.strongRecOn generalizing loop s with
  | ind rank ihrank =>
  -- where nothing is to happen any more, there are fewer chances for turns
  have hquiet : ∀ {loop : Loop τ ρ ε} {s : σ}, fine loop s → loop.pool.rank = rank → ¬busy s →
      ∃ last, run routine clock loop s = some last := by
    intro loop s hfine hrank hbusy
    refine exists_run_of_lower (P := fun loop s => fine loop s ∧ loop.pool.rank = rank ∧ ¬busy s)
      (fun loop _ => loop.chances) ?_ ⟨hfine, hrank, hbusy⟩
    rintro loop s next ⟨hfine, hrank, hbusy⟩ hidle hnext
    have hnextFine := hpatient.step hfine hidle
    have hstepped : Stepped routine clock loop s (loop.step routine clock s) :=
      stepped_step hpatient.still hpatient.passes hidle
    rw [hnext] at hnextFine hstepped
    cases hstepped with
    | @turn _ rest i hround hresumed =>
        generalize hresume : Loop.resume routine clock i { loop with round := rest } s = next
          at hnextFine
        obtain ⟨loop', s'⟩ := next
        rcases resume_cases hpatient hfine hround hresumed hresume with
          hless | ⟨hsame, rfl, -, hsome | hfewer⟩
        · exact Or.inl (ihrank _ (hrank ▸ hless) hnextFine rfl)
        · exact absurd hsome hbusy
        · exact Or.inr ⟨⟨hnextFine, hsame.trans hrank, hbusy⟩, Or.inl hfewer⟩
    | nearer hpool hchances hnow hless =>
        exact Or.inr ⟨⟨hnextFine, by rw [hpool, hrank], hpatient.idle hfine hbusy⟩,
          Or.inr ⟨hchances, hless⟩⟩
  -- otherwise time brings the state further, or there are fewer chances before it passes
  have hacc := hpatient.acc hfine
  induction hacc generalizing loop with
  | intro s _ ihacc =>
      by_cases hbusy : busy s
      · refine exists_run_of_lower
          (P := fun loop t => t = s ∧ fine loop t ∧ loop.pool.rank = rank)
          (fun loop t => loop.chancesAt (clock.now t)) ?_ ⟨rfl, hfine, hrank⟩
        rintro loop t next ⟨rfl, hfine, hrank⟩ hidle hnext
        have hnextFine := hpatient.step hfine hidle
        have hstepped : Stepped routine clock loop t (loop.step routine clock t) :=
          stepped_step hpatient.still hpatient.passes hidle
        rw [hnext] at hnextFine hstepped
        cases hstepped with
        | @turn _ rest i hround hresumed =>
            generalize hresume : Loop.resume routine clock i { loop with round := rest } t = next
              at hnextFine
            obtain ⟨loop', s'⟩ := next
            rcases resume_cases hpatient hfine hround hresumed hresume with
              hless | ⟨hsame, hstate, hfewer, -⟩
            · exact Or.inl (ihrank _ (hrank ▸ hless) hnextFine rfl)
            · subst hstate
              exact Or.inr ⟨⟨rfl, hnextFine, hsame.trans hrank⟩, Or.inl hfewer⟩
        | @nearer n loop' hpool hchances hnow hless =>
            have hrank' : loop'.pool.rank = rank := by rw [hpool, hrank]
            rcases Nat.eq_zero_or_pos n with rfl | hpos
            · rw [hpatient.still] at hnextFine ⊢
              exact Or.inr ⟨⟨rfl, hnextFine, hrank'⟩, Or.inr ⟨hnow rfl, hless⟩⟩
            · exact Or.inl (ihacc _ (hpatient.further hfine hbusy hpos) hnextFine hrank')
      · exact hquiet hfine hrank hbusy

/-! ## Loops on their courses -/

/-- A loop stands where a course does that has been reached. -/
def OnCourse (routine : Coroutine σ τ ρ ε) (world : σ → σ → Prop) (limit : Option Nat)
    (start : Course σ τ ρ ε) (loop : Loop τ ρ ε) (s : σ) : Prop :=
  ∃ course, Course.Reaches routine world start course ∧ Tracks limit loop course ∧ course.state = s

variable {world : σ → σ → Prop} {limit : Option Nat} {start : Course σ τ ρ ε}

theorem OnCourse.step (helapse : ∀ n s, world s (clock.elapse n s))
    (hclock : ∀ n s, clock.now (clock.elapse n s) = clock.now s + n)
    (hprompt : ∀ course, Course.Reaches routine world start course → ∀ turn ∈ course.turns,
      turn.outcome ≠ .paused none)
    (hcourse : OnCourse routine world limit start loop s) (hidle : loop.isIdle = false) :
    OnCourse routine world limit start (loop.step routine clock s).1
      (loop.step routine clock s).2 := by
  obtain ⟨course, hreaches, htracks, rfl⟩ := hcourse
  rcases htracks.step hidle helapse hclock
      fun next hresume => hprompt next (hreaches.tail (.resume hresume)) with
    ⟨next, hresume, hnext, hstate⟩ | ⟨state, hworld, hnext, hstate, -⟩
  · exact ⟨next, hreaches.tail (.resume hresume), hnext, hstate.symm⟩
  · exact ⟨_, hreaches.trans (Course.reaches_world hworld), hnext, hstate.symm⟩

end Loop

section

variable {routine : Coroutine σ τ ρ ε} {clock : Clock σ} {world : σ → σ → Prop} {tasks : List τ}
  {limit : Option Int} {s : σ} {busy : σ → Prop} {further : σ → σ → Prop}

/-- Where patient tasks wait for what time brings, running them comes to an end. -/
theorem exists_course_runPool_of_patient (hstill : ∀ s, clock.elapse 0 s = s)
    (helapse : ∀ n s, world s (clock.elapse n s))
    (hclock : ∀ n s, clock.now (clock.elapse n s) = clock.now s + n)
    (hprompt : ∀ course, Course.Reaches routine world (.ofTasks tasks limit s) course →
      ∀ turn ∈ course.turns, turn.outcome ≠ .paused none)
    (hpolls : ∀ course : Course σ τ ρ ε,
      Course.Reaches routine world (.ofTasks tasks limit s) course →
      ∀ {i : Nat} {task rest : τ} {delay : Option Nat} {s' : σ},
        course.pool.tasks[i]? = some (.suspended task) →
        routine.resume task course.state = (.ok (.paused delay rest), s') →
          s' = course.state ∧ busy course.state)
    (hacc : ∀ course : Course σ τ ρ ε,
      Course.Reaches routine world (.ofTasks tasks limit s) course → Acc further course.state)
    (hfurther : ∀ course : Course σ τ ρ ε,
      Course.Reaches routine world (.ofTasks tasks limit s) course → ∀ {n : Nat},
        busy course.state → 0 < n → further (clock.elapse n course.state) course.state)
    (hidle : ∀ course : Course σ τ ρ ε,
      Course.Reaches routine world (.ofTasks tasks limit s) course → ∀ {n : Nat},
        ¬busy course.state → ¬busy (clock.elapse n course.state)) :
    ∃ course, Course.Reaches routine world (.ofTasks tasks limit s) course ∧
      (∀ failure, course.failure = some failure →
        (runPool routine clock tasks limit s).1 = .error (some failure)) ∧
      (course.failure = none → ∃ results,
        runPool routine clock tasks limit s = (.ok results, course.state) ∧
        course.pool.tasks = results.map fun result => .ended (.ok result)) := by
  obtain ⟨state, hstate, hfirst⟩ := Loop.exists_run_ofTasks routine clock tasks limit s
  have hworld : Passes world s state := by
    rcases hstate with rfl | rfl
    · exact .refl
    · exact .single (helapse 0 s)
  have hstart : Loop.OnCourse routine world (seatLimit limit) (.ofTasks tasks limit s)
      { pool := Pool.ofTasks tasks limit, round := (List.range tasks.length).map .task } state :=
    ⟨_, Course.reaches_world hworld, Loop.tracks_ofTasks tasks limit state, rfl⟩
  have hpatient : Loop.Patient routine clock
      (Loop.OnCourse routine world (seatLimit limit) (.ofTasks tasks limit s)) busy further := by
    refine ⟨hstill, hclock, .step helapse hclock hprompt, ?_, ?_, ?_, ?_⟩
    · rintro loop _ s' i task rest delay ⟨course, hreaches, htracks, rfl⟩ htask hturn
      exact hpolls course hreaches (htracks.pool ▸ htask) hturn
    · rintro loop _ ⟨course, hreaches, -, rfl⟩
      exact hacc course hreaches
    · rintro loop _ n ⟨course, hreaches, -, rfl⟩ hbusy hn
      exact hfurther course hreaches hbusy hn
    · rintro loop _ n ⟨course, hreaches, -, rfl⟩ hbusy
      exact hidle course hreaches hbusy
  obtain ⟨⟨last, final⟩, hrun⟩ := Loop.exists_run_of_patient hpatient hstart
  obtain ⟨⟨course, hreaches, htracks, hfinal⟩, hdone⟩ := repeatUntil_keeps
    (P := fun now : Loop τ ρ ε × σ =>
      Loop.OnCourse routine world (seatLimit limit) (.ofTasks tasks limit s) now.1 now.2)
    (fun now hnow hcourse => hcourse.step helapse hclock hprompt hnow) hstart hrun
  refine ⟨course, hreaches, htracks.runPool_eq hdone ?_⟩
  rw [hfirst, hrun, hfinal]

end

end BuildRunner.Schedule
