import BuildRunner.Proofs.Schedule.Following

/-!
# Traces

Tasks that write to a common trace, each turn a number of events that does not depend on the others.
In every course the part of a task in the trace is what it has written itself, in its order; and
where only one task may run at a time, the parts stand one behind the other.
-/

namespace BuildRunner.Schedule

variable {σ τ ρ ε α : Type}

/-- In fine states the task writes the events of its turns to the trace, suspends between them
without delay, and ends well. -/
inductive Coroutine.Writes (routine : Coroutine σ τ ρ ε) (fine : σ → Prop) (trace : σ → List α) :
    τ → List (List α) → Prop
  | last {task : τ} {events : List α} {result : ρ}
      (hturn : ∀ {s}, fine s → ∃ s', routine.resume task s = (.ok (.ended result), s') ∧
        fine s' ∧ trace s' = trace s ++ events) :
      routine.Writes fine trace task [events]
  | more {task rest : τ} {events : List α} {turns : List (List α)}
      (hturn : ∀ {s}, fine s → ∃ s', routine.resume task s = (.ok (.paused (some 0) rest), s') ∧
        fine s' ∧ trace s' = trace s ++ events)
      (hrest : routine.Writes fine trace rest turns) :
      routine.Writes fine trace task (events :: turns)

section

variable {routine : Coroutine σ τ ρ ε} {fine : σ → Prop} {trace : σ → List α} {task : τ}
  {turns : List (List α)}

theorem Coroutine.Writes.finite (hwrites : routine.Writes fine trace task turns) :
    routine.Finite fine task := by
  induction hwrites with
  | last hturn =>
      refine .intro (fun hs => ?_) (fun hs hpaused => ?_) (fun hs hpaused => ?_)
      all_goals obtain ⟨s', hended, hfine, -⟩ := hturn hs
      · rw [hended]
        exact hfine
      all_goals
        rw [hended] at hpaused
        cases hpaused
  | more hturn _ ih =>
      refine .intro (fun hs => ?_) (fun hs hpaused => ?_) (fun hs hpaused => ?_)
      all_goals obtain ⟨s', hturn', hfine, -⟩ := hturn hs
      · rw [hturn']
        exact hfine
      all_goals
        rw [hturn'] at hpaused
        cases hpaused
      · simp
      · exact ih

theorem Coroutine.Writes.ne_nil (hwrites : routine.Writes fine trace task turns) : turns ≠ [] := by
  cases hwrites <;> simp

/-- The next turn of a task, and what it leads to. -/
theorem Coroutine.Writes.turn (hwrites : routine.Writes fine trace task turns) {s : σ}
    (hs : fine s) :
    ∃ events rest, turns = events :: rest ∧ fine (routine.resume task s).2 ∧
      trace (routine.resume task s).2 = trace s ++ events ∧
      ((∃ result, (routine.resume task s).1 = .ok (.ended result) ∧ rest = []) ∨
        ∃ task', (routine.resume task s).1 = .ok (.paused (some 0) task') ∧
          routine.Writes fine trace task' rest) := by
  cases hwrites with
  | last hturn =>
      obtain ⟨s', hended, hfine, htrace⟩ := hturn hs
      rw [hended]
      exact ⟨_, _, rfl, hfine, htrace, Or.inl ⟨_, rfl, rfl⟩⟩
  | more hturn hrest =>
      obtain ⟨s', hpaused, hfine, htrace⟩ := hturn hs
      rw [hpaused]
      exact ⟨_, _, rfl, hfine, htrace, Or.inr ⟨_, rfl, hrest⟩⟩

end

/-- The part of a task in what was written, where each event bears the index of its task. -/
def part (i : Nat) (written : List (Nat × α)) : List α :=
  (written.filter fun event => event.1 == i).map Prod.snd

theorem part_append (i : Nat) (first second : List (Nat × α)) :
    part i (first ++ second) = part i first ++ part i second := by
  simp [part]

theorem part_map_self (i : Nat) (events : List α) : part i (events.map (Prod.mk i)) = events := by
  simp [part, List.filter_map, Function.comp_def]

theorem part_map_of_ne {i j : Nat} (hj : j ≠ i) (events : List α) :
    part j (events.map (Prod.mk i)) = [] := by
  simp [part, List.filter_map, Function.comp_def, Ne.symm hj]

theorem filter_append_filter_of_sorted {written : List (Nat × α)}
    (hsorted : (written.map Prod.fst).Pairwise (· ≤ ·)) (n : Nat) :
    (written.filter fun event => decide (event.1 < n)) ++
      (written.filter fun event => !decide (event.1 < n)) = written := by
  induction written with
  | nil => rfl
  | cons event written ih =>
      rw [List.map_cons, List.pairwise_cons] at hsorted
      by_cases hless : event.1 < n
      · simp only [List.filter_cons, hless, decide_true, Bool.not_true, if_true,
          Bool.false_eq_true, if_false, List.cons_append, ih hsorted.2]
      · have hnone : (written.filter fun event => decide (event.1 < n)) = [] := by
          refine List.filter_eq_nil_iff.mpr fun other hother => ?_
          have := hsorted.1 _ (List.mem_map_of_mem hother)
          simp only [decide_eq_true_eq]
          omega
        have hrest := ih hsorted.2
        rw [hnone, List.nil_append] at hrest
        simp only [List.filter_cons, hless, decide_false, Bool.not_false, if_true,
          Bool.false_eq_true, if_false, hnone, hrest, List.nil_append]

/-- What was written in the order of the tasks falls into their parts. -/
theorem map_snd_of_sorted {written : List (Nat × α)}
    (hsorted : (written.map Prod.fst).Pairwise (· ≤ ·)) {n : Nat}
    (hless : ∀ event ∈ written, event.1 < n) :
    written.map Prod.snd = (List.range n).flatMap fun i => part i written := by
  induction n generalizing written with
  | zero =>
      cases written with
      | nil => rfl
      | cons event written => exact absurd (hless event List.mem_cons_self) (Nat.not_lt_zero _)
  | succ n ih =>
      have hfirst : (written.filter fun event => decide (event.1 < n)).map Prod.snd =
          (List.range n).flatMap fun i => part i written := by
        rw [ih (hsorted.sublist (List.filter_sublist.map _))
          fun event hevent => by simpa using (List.mem_filter.mp hevent).2]
        refine List.flatMap_congr fun i hi => ?_
        rw [part, part, List.filter_filter]
        congr 2
        funext event
        have := List.mem_range.mp hi
        by_cases hevent : event.1 = i
        · simp [hevent, this]
        · simp [hevent]
      have hlast : (written.filter fun event => !decide (event.1 < n)).map Prod.snd =
          part n written := by
        rw [part]
        congr 1
        refine List.filter_congr fun event hevent => ?_
        have := hless event hevent
        by_cases heq : event.1 = n
        · simp [heq]
        · have hlt : event.1 < n := by omega
          simp [heq, hlt]
      rw [← filter_append_filter_of_sorted hsorted n, List.map_append, hfirst, hlast,
        filter_append_filter_of_sorted hsorted n, List.range_succ, List.flatMap_append,
        List.flatMap_singleton]

/-! ## Courses -/

/-- Nothing is written but in turns. -/
def Unwritten (fine : σ → Prop) (trace : σ → List α) (s s' : σ) : Prop :=
  fine s → fine s' ∧ trace s' = trace s

/-- What the tasks of a course have written: of the turns that a task has, some are done, and their
events are its part; it goes on with those that are left, and once none is left it has ended well. -/
structure Written (routine : Coroutine σ τ ρ ε) (fine : σ → Prop) (trace : σ → List α)
    (before : List α) (own : Nat → List (List α)) (course : Course σ τ ρ ε)
    (written : List (Nat × α)) : Prop where
  state : fine course.state
  whole : trace course.state = before ++ written.map Prod.snd
  parts : ∀ {i : Nat} {status : Status τ ρ ε}, course.pool.tasks[i]? = some status →
    ∃ done left, own i = done ++ left ∧ part i written = done.flatten ∧
      (∀ task, status.task? = some task → routine.Writes fine trace task left) ∧
      (status.task? = none → left = [] ∧ ∃ result, status = .ended (.ok result))

namespace Written

variable {routine : Coroutine σ τ ρ ε} {fine : σ → Prop} {trace : σ → List α} {before : List α}
  {own : Nat → List (List α)} {course next : Course σ τ ρ ε} {written : List (Nat × α)}
  {limit : Option Nat} {begun handed asked : Nat}

theorem ofTasks {tasks : List τ} {s : σ} (hs : fine s)
    (hwrites : ∀ {i task}, tasks[i]? = some task → routine.Writes fine trace task (own i))
    (limit : Option Int) :
    Written routine fine trace (trace s) own (.ofTasks tasks limit s) ([] : List (Nat × α)) := by
  refine ⟨hs, (List.append_nil _).symm, fun {i status} hstatus => ?_⟩
  simp only [Course.ofTasks, Pool.ofTasks, List.getElem?_map, Option.map_eq_some_iff] at hstatus
  obtain ⟨task, htask, rfl⟩ := hstatus
  refine ⟨[], own i, rfl, rfl, fun task' hsame => ?_, fun hnone => by simp [Status.task?] at hnone⟩
  cases hsame
  exact hwrites htask

theorem world (hwritten : Written routine fine trace before own course written) {state : σ}
    (hworld : Unwritten fine trace course.state state) :
    Written routine fine trace before own { course with state } written := by
  obtain ⟨hfine, htrace⟩ := hworld hwritten.state
  exact ⟨hfine, htrace.trans hwritten.whole, hwritten.parts⟩

/-- A status has what is left to do, wherever it stands in line. -/
theorem parts_of_plain (hwritten : Written routine fine trace before own course written) {i : Nat}
    {status : Status τ ρ ε} (hplain : (course.pool.tasks.map Status.plain)[i]? = some status.plain) :
    ∃ done left, own i = done ++ left ∧ part i written = done.flatten ∧
      (∀ task, status.task? = some task → routine.Writes fine trace task left) ∧
      (status.task? = none → left = [] ∧ ∃ result, status = .ended (.ok result)) := by
  rw [List.getElem?_map, Option.map_eq_some_iff] at hplain
  obtain ⟨other, hother, hsame⟩ := hplain
  obtain ⟨done, left, howns, hpart, hlive, hended⟩ := hwritten.parts hother
  have htask : status.task? = other.task? := by
    rw [← Status.task?_plain, ← hsame, Status.task?_plain]
  refine ⟨done, left, howns, hpart, fun task hsome => hlive task (htask ▸ hsome), fun hnone => ?_⟩
  obtain ⟨hleft, result, hresult⟩ := hended (htask ▸ hnone)
  refine ⟨hleft, result, ?_⟩
  subst hresult
  cases status <;> simp_all [Status.plain, Status.task?]

theorem waits (hwritten : Written routine fine trace before own course written)
    (hstate : next.state = course.state)
    (hplain : next.pool.tasks.map Status.plain = course.pool.tasks.map Status.plain) :
    Written routine fine trace before own next written := by
  refine ⟨hstate ▸ hwritten.state, hstate ▸ hwritten.whole, fun {i status} hstatus => ?_⟩
  refine hwritten.parts_of_plain ?_
  rw [← hplain, List.getElem?_map, hstatus]
  rfl

theorem turn (hwritten : Written routine fine trace before own course written) {i : Nat}
    {status : Status τ ρ ε} {task : τ} (hstatus : course.pool.tasks[i]? = some status)
    (htask : status.task? = some task)
    (hstate : next.state = (routine.resume task course.state).2)
    (hplain : next.pool.tasks.map Status.plain = (course.pool.tasks.map Status.plain).set i
      (.after (routine.resume task course.state).1)) :
    ∃ events : List α,
      Written routine fine trace before own next (written ++ events.map (Prod.mk i)) := by
  obtain ⟨done, left, howns, hpart, hlive, -⟩ := hwritten.parts hstatus
  obtain ⟨events, rest, rfl, hfine, htrace, hends⟩ := (hlive task htask).turn hwritten.state
  have hlt := (List.getElem?_eq_some_iff.mp hstatus).1
  refine ⟨events, hstate ▸ hfine, ?_, fun {j other} hother => ?_⟩
  · rw [hstate, htrace, hwritten.whole, List.map_append, List.append_assoc]
    simp [Function.comp_def]
  · have hplainOther : (next.pool.tasks.map Status.plain)[j]? = some other.plain := by
      rw [List.getElem?_map, hother]
      rfl
    rw [hplain] at hplainOther
    by_cases hj : j = i
    · subst hj
      rw [List.getElem?_set_self (by simpa using hlt), Option.some.injEq] at hplainOther
      have hsame : other.task? = (Status.after (routine.resume task course.state).1 :
          Status τ ρ ε).task? := by
        rw [hplainOther, Status.task?_plain]
      refine ⟨done ++ [events], rest, by simp [howns], ?_, ?_⟩
      · rw [part_append, hpart, part_map_self]
        simp
      · rcases hends with ⟨result, hresult, rfl⟩ | ⟨task', hresult, hrest⟩
        · rw [hresult] at hsame hplainOther
          refine ⟨fun task' hsome => ?_, fun _ => ⟨rfl, result, ?_⟩⟩
          · rw [hsame] at hsome
            cases hsome
          · cases other <;> simp_all [Status.plain, Status.after]
        · rw [hresult] at hsame
          refine ⟨fun task'' hsome => ?_, fun hnone => ?_⟩
          · rw [hsame] at hsome
            cases hsome
            exact hrest
          · rw [hsame] at hnone
            cases hnone
    · rw [List.getElem?_set_ne (Ne.symm hj)] at hplainOther
      obtain ⟨done, left, howns, hpart, hothers⟩ := hwritten.parts_of_plain hplainOther
      refine ⟨done, left, howns, ?_, hothers⟩
      rw [part_append, part_map_of_ne hj, List.append_nil, hpart]

theorem failure_eq_none (hwritten : Written routine fine trace before own course written)
    (horderly : course.Orderly limit begun handed asked) : course.failure = none := by
  refine horderly.failure_eq_none_iff.mpr fun i failure hfailed => ?_
  obtain ⟨_, _, -, -, -, hended⟩ := hwritten.parts hfailed
  obtain ⟨-, _, hok⟩ := hended rfl
  cases hok

/-- A task that has ended has written all that it has to write. -/
theorem part_of_ended (hwritten : Written routine fine trace before own course written) {i : Nat}
    {ending : Except ε ρ} (hended : course.pool.tasks[i]? = some (.ended ending)) :
    part i written = (own i).flatten := by
  obtain ⟨done, left, howns, hpart, -, hleft⟩ := hwritten.parts hended
  rw [hpart, howns, (hleft rfl).1, List.append_nil]

/-- Whatever the order in which tasks are resumed, they write their own parts. -/
theorem exists_reaches (hwritten : Written routine fine trace before own course written)
    (horderly : course.Orderly limit begun handed asked)
    (hreaches : Course.Reaches routine (Unwritten fine trace) course next) :
    ∃ written, Written routine fine trace before own next written := by
  induction hreaches with
  | refl => exact ⟨written, hwritten⟩
  | tail hbefore hstep ih =>
      obtain ⟨_, _, _, hnow⟩ := horderly.exists_reaches hbefore
      obtain ⟨written', hwritten'⟩ := ih
      cases hstep with
      | resume hresume =>
          cases hnow.step hresume with
          | waits _ _ hstate _ hplain => exact ⟨written', hwritten'.waits hstate hplain⟩
          | turn _ _ _ hstatus htask hstate _ hplain =>
              obtain ⟨events, hnext⟩ := hwritten'.turn hstatus htask hstate hplain
              exact ⟨_, hnext⟩
      | world hworld => exact ⟨written', hwritten'.world hworld⟩

end Written

/-! ## One at a time -/

/-- The tasks have written one after the other, and all have ended but the last that has begun. -/
structure InOrder (course : Course σ τ ρ ε) (begun : Nat) (written : List (Nat × α)) : Prop where
  sorted : (written.map Prod.fst).Pairwise (· ≤ ·)
  less : ∀ event ∈ written, event.1 < begun
  ended : ∀ {i j : Nat} {status : Status τ ρ ε}, i < j → j < begun →
    course.pool.tasks[i]? = some status → status.task? = none

namespace InOrder

variable {course next : Course σ τ ρ ε} {written : List (Nat × α)} {begun begun' handed asked i : Nat}

/-- When another task begins, all before it have ended. -/
theorem task?_of_begins (hlined : Lined (some 1) course.pool course.called begun handed asked)
    {pool' : Pool τ ρ ε} {task : τ} (hseated : course.pool.seated begun = some (pool', task))
    (hi : i < begun) {status : Status τ ρ ε} (hstatus : course.pool.tasks[i]? = some status) :
    status.task? = none := by
  obtain ⟨-, first, hfirst, -⟩ := Pool.tasks_seated hseated
  have hrunning := Pool.running_seated hseated hfirst
  have hless := hlined.within.2 hseated
  have hidle : first.isRunning = false := by
    cases first with
    | suspended rest => exact absurd ((hlined.lt_begun hfirst).mp rfl) (Nat.lt_irrefl _)
    | _ => rfl
  have hnone : course.pool.running = 0 := by
    rw [hidle] at hrunning
    simp only [Bool.false_eq_true, if_false, Nat.add_zero] at hrunning
    omega
  have hbegun := (hlined.lt_begun hstatus).mpr hi
  cases status with
  | suspended rest =>
      have hall := List.countP_eq_zero.mp hnone _ (List.mem_of_getElem? hstatus)
      exact absurd rfl hall
  | ended => rfl
  | _ => cases hbegun

theorem turn (hinOrder : InOrder course begun written)
    (hlined : Lined (some 1) course.pool course.called begun handed asked)
    (hbegun : i = begun ∧ begun' = begun + 1 ∨ i < begun ∧ begun' = begun)
    {pool' : Pool τ ρ ε} {task : τ} (hseated : course.pool.seated i = some (pool', task))
    {after : Status τ ρ ε}
    (hplain : next.pool.tasks.map Status.plain = (course.pool.tasks.map Status.plain).set i after)
    (events : List α) : InOrder next begun' (written ++ events.map (Prod.mk i)) := by
  obtain ⟨-, status, hstatus, htask⟩ := Pool.tasks_seated hseated
  have hlast : ∀ event ∈ written, event.1 ≤ i := by
    intro event hevent
    have hless := hinOrder.less event hevent
    rcases hbegun with ⟨rfl, -⟩ | ⟨hlt, -⟩
    · exact Nat.le_of_lt hless
    · by_contra hnot
      have hnone := hinOrder.ended (Nat.lt_of_not_le hnot) hless hstatus
      rw [hnone] at htask
      cases htask
  refine ⟨?_, fun event hevent => ?_, fun {k j other} hkj hj hother => ?_⟩
  · rw [List.map_append, List.pairwise_append]
    refine ⟨hinOrder.sorted, ?_, fun first hfirst second hsecond => ?_⟩
    · rw [List.map_map]
      exact List.pairwise_map.mpr (List.pairwise_of_forall fun _ _ => Nat.le_refl i)
    · obtain ⟨event, hevent, rfl⟩ := List.mem_map.mp hfirst
      simp only [List.map_map, List.mem_map, Function.comp_apply] at hsecond
      obtain ⟨_, -, rfl⟩ := hsecond
      exact hlast event hevent
  · rcases List.mem_append.mp hevent with hold | hnew
    · have := hinOrder.less event hold
      omega
    · obtain ⟨_, -, rfl⟩ := List.mem_map.mp hnew
      omega
  · have hsame : k ≠ i → ∃ old, course.pool.tasks[k]? = some old ∧ other.task? = old.task? := by
      intro hk
      have hget := congrArg (fun tasks : List (Status τ ρ ε) => tasks[k]?) hplain
      simp only [List.getElem?_map, hother, Option.map_some, List.getElem?_set_ne hk.symm] at hget
      obtain ⟨old, hold, heq⟩ := Option.map_eq_some_iff.mp hget.symm
      refine ⟨old, hold, ?_⟩
      rw [← Status.task?_plain, ← heq, Status.task?_plain]
    rcases hbegun with ⟨rfl, rfl⟩ | ⟨hlt, rfl⟩
    · obtain ⟨old, hold, heq⟩ := hsame (by omega)
      rw [heq]
      exact task?_of_begins hlined hseated (by omega) hold
    · rcases eq_or_ne k i with rfl | hk
      · have hnone := hinOrder.ended hkj hj hstatus
        rw [hnone] at htask
        cases htask
      · obtain ⟨old, hold, heq⟩ := hsame hk
        rw [heq]
        exact hinOrder.ended hkj hj hold

theorem of_plain (hinOrder : InOrder course begun written)
    (hplain : next.pool.tasks.map Status.plain = course.pool.tasks.map Status.plain) :
    InOrder next begun written := by
  refine ⟨hinOrder.sorted, hinOrder.less, fun {i j other} hij hj hother => ?_⟩
  have hget := congrArg (fun tasks : List (Status τ ρ ε) => tasks[i]?) hplain
  simp only [List.getElem?_map, hother, Option.map_some] at hget
  obtain ⟨old, hold, heq⟩ := Option.map_eq_some_iff.mp hget.symm
  rw [← Status.task?_plain, ← heq, Status.task?_plain]
  exact hinOrder.ended hij hj hold

end InOrder

variable {routine : Coroutine σ τ ρ ε} {fine : σ → Prop} {trace : σ → List α} {before : List α}
  {own : Nat → List (List α)} {course next : Course σ τ ρ ε} {written : List (Nat × α)}
  {begun handed asked : Nat}

/-- Where only one task may run at a time, what was written stands in the order of the tasks. -/
theorem Written.exists_inOrder (hwritten : Written routine fine trace before own course written)
    (hinOrder : InOrder course begun written)
    (horderly : course.Orderly (some 1) begun handed asked)
    (hreaches : Course.Reaches routine (Unwritten fine trace) course next) :
    ∃ begun' handed' asked' written', next.Orderly (some 1) begun' handed' asked' ∧
      Written routine fine trace before own next written' ∧ InOrder next begun' written' := by
  induction hreaches with
  | refl => exact ⟨_, _, _, _, horderly, hwritten, hinOrder⟩
  | tail hbefore hstep ih =>
      obtain ⟨_, _, _, _, hnow, hwritten', hinOrder'⟩ := ih
      cases hstep with
      | resume hresume =>
          cases hnow.step hresume with
          | waits hnext _ hstate _ hplain =>
              exact ⟨_, _, _, _, hnext, hwritten'.waits hstate hplain, hinOrder'.of_plain hplain⟩
          | turn hnext hbegun hseated hstatus htask hstate _ hplain =>
              obtain ⟨events, hnextWritten⟩ := hwritten'.turn hstatus htask hstate hplain
              exact ⟨_, _, _, _, hnext, hnextWritten,
                hinOrder'.turn hnow.lined hbegun hseated hplain events⟩
      | world hworld =>
          exact ⟨_, _, _, _, ⟨hnow.lined, hnow.starts, hnow.endings⟩, hwritten'.world hworld,
            hinOrder'.of_plain rfl⟩

end BuildRunner.Schedule
