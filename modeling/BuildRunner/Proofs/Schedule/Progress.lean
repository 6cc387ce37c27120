import BuildRunner.Proofs.Schedule.Courses

/-!
# Progress

As long as a task has not ended, some task can be resumed: where tasks wait, all seats are taken or
handed out.  If every task takes finitely many turns, only finitely many can be resumed one after
the other, so that in the end each has ended.
-/

namespace BuildRunner.Schedule

variable {σ τ ρ ε : Type}

/-! ## The seats of a limit -/

theorem countP_range_between (first last n : Nat) :
    (List.range n).countP (fun i => decide (first ≤ i ∧ i < last)) = min last n - first := by
  induction n with
  | zero => simp
  | succ n ih =>
      rw [List.range_succ, List.countP_append, ih, List.countP_singleton]
      simp only [decide_eq_true_eq]
      split_ifs <;> omega

/-- At most `k` tasks have begun and not ended, and so it will be during the next turn, whoever has
it. -/
def Pool.Within (pool : Pool τ ρ ε) (k : Nat) : Prop :=
  pool.running ≤ k ∧
    ∀ {i pool' task}, pool.seated i = some (pool', task) → pool'.running ≤ k

/-- A task that takes its turn is one of those that have begun. -/
theorem Pool.running_seated {pool pool' : Pool τ ρ ε} {i : Nat} {task : τ}
    (hseated : pool.seated i = some (pool', task)) {status : Status τ ρ ε}
    (hstatus : pool.tasks[i]? = some status) :
    pool'.running + (if status.isRunning then 1 else 0) = pool.running + 1 := by
  rw [Pool.running, (Pool.tasks_seated hseated).1]
  exact Pool.running_setStatus hstatus (.suspended task)

namespace Lined

variable {limit : Option Nat} {pool : Pool τ ρ ε} {called : List Nat} {begun handed asked : Nat}

theorem map_phase (hlined : Lined limit pool called begun handed asked) :
    pool.tasks.map Status.phase =
      (List.range pool.tasks.length).map (phaseAt begun handed asked) := by
  refine List.ext_getElem (by simp) fun i hi _ => ?_
  rw [List.getElem_map, List.getElem_map, List.getElem_range]
  exact hlined.phase (List.getElem?_eq_getElem (by simpa using hi))

theorem handed_eq (hlined : Lined limit pool called begun handed asked) :
    pool.handed = handed - begun := by
  have hmap := congrArg (List.countP (fun phase => decide (phase = Phase.handed))) hlined.map_phase
  rw [List.countP_map, List.countP_map] at hmap
  have hphase : ((fun phase => decide (phase = Phase.handed)) ∘ phaseAt begun handed asked) =
      fun i => decide (begun ≤ i ∧ i < handed) := by
    funext i
    simp only [Function.comp_apply, phaseAt]
    split_ifs <;> simp <;> omega
  rw [hphase, countP_range_between,
    Nat.min_eq_left (Nat.le_trans hlined.handed_le hlined.asked_le)] at hmap
  exact hmap

theorem within {k : Nat} (hlined : Lined (some k) pool called begun handed asked) : pool.Within k := by
  obtain ⟨free, hfree, hsum, -⟩ : ∃ free, pool.free = some free ∧
      free + pool.running + (handed - begun) = k ∧ (free = 0 ∨ asked - handed = 0) := by
    have hbalanced := hlined.balanced
    cases hfree : pool.free with
    | none => simp [hfree, Balanced] at hbalanced
    | some free =>
        rw [hfree] at hbalanced
        exact ⟨free, rfl, hbalanced⟩
  refine ⟨by omega, fun {i pool' task} hseated => ?_⟩
  obtain ⟨-, status, hstatus, -⟩ := Pool.tasks_seated hseated
  have hrunning := Pool.running_seated hseated hstatus
  cases status with
  | fresh _ =>
      simp only [Status.isRunning, Bool.false_eq_true, if_false] at hrunning
      simp only [Pool.seated, hstatus, hfree] at hseated
      split at hseated
      · contradiction
      · next n hn _ =>
          rw [Option.some.injEq] at hn
          omega
      · contradiction
  | granted _ =>
      simp only [Status.isRunning, Bool.false_eq_true, if_false] at hrunning
      have hphase : Phase.handed = _ := hlined.phase hstatus
      unfold phaseAt at hphase
      split_ifs at hphase
      omega
  | suspended _ =>
      simp only [Status.isRunning, if_true] at hrunning
      omega
  | blocked _ => simp [Pool.seated, hstatus] at hseated
  | ended _ => simp [Pool.seated, hstatus] at hseated

theorem full {k : Nat} (hlined : Lined (some k) pool called begun handed asked) {i : Nat} {task : τ}
    (hblocked : pool.tasks[i]? = some (.blocked task)) : pool.running + pool.handed = k := by
  have hphase : Phase.waiting = _ := hlined.phase hblocked
  have hbalanced := hlined.balanced
  rw [hlined.handed_eq]
  unfold phaseAt at hphase
  split_ifs at hphase
  cases hfree : pool.free with
  | none => simp [hfree, Balanced] at hbalanced
  | some free =>
      rw [hfree] at hbalanced
      obtain ⟨hsum, hnone⟩ := hbalanced
      omega

/-! ## There is always somebody to go on -/

theorem exists_due (hlined : Lined limit pool called begun handed asked) (hlimit : limit ≠ some 0)
    {i : Nat} {status : Status τ ρ ε} {task : τ} (hstatus : pool.tasks[i]? = some status)
    (htask : status.task? = some task) : ∃ j called', pool.Due called j called' := by
  cases hcalled : called with
  | cons j rest => exact ⟨j, rest, .call⟩
  | nil =>
      have hnobody := hlined.called
      have hbegun := hlined.begun_le
      have hasked := hlined.asked_le
      rw [hcalled] at hnobody
      have hempty := congrArg List.length hnobody
      simp only [List.length_nil, List.length_append, List.length_range'] at hempty
      -- nobody is called, so that nobody has yet to ask
      have hall : ∀ other ∈ pool.tasks, other.phase ≠ .asking := by
        intro other hother hphase
        obtain ⟨j, hlt, hget⟩ := List.mem_iff_getElem.mp hother
        have hat := hlined.phase (List.getElem?_eq_some_iff.mpr ⟨hlt, hget⟩)
        rw [hphase] at hat
        unfold phaseAt at hat
        split_ifs at hat
        omega
      have hrunning : 0 < pool.running → ∃ j called', pool.Due [] j called' := by
        intro hpos
        obtain ⟨other, hmem, hother⟩ := List.countP_pos_iff.mp hpos
        cases other with
        | suspended rest =>
            obtain ⟨j, hj⟩ := List.mem_iff_getElem?.mp hmem
            exact ⟨j, [], .goOn hall hj⟩
        | _ => simp [Status.isRunning] at hother
      have hat := hlined.phase hstatus
      unfold phaseAt at hat
      refine hrunning ?_
      by_cases hi : i < begun
      · rw [if_pos hi] at hat
        cases status with
        | suspended rest =>
            exact List.countP_pos_iff.mpr ⟨_, List.mem_of_getElem? hstatus, rfl⟩
        | ended ending => simp [Status.task?] at htask
        | _ => simp [Status.phase] at hat
      · have hlt := (List.getElem?_eq_some_iff.mp hstatus).1
        have hbalanced := hlined.balanced
        cases limit <;> cases hfree : pool.free <;> simp only [hfree, Balanced] at hbalanced
        · omega
        · simp only [ne_eq, Option.some.injEq] at hlimit
          omega

end Lined

theorem Course.over_or_exists_resume {routine : Coroutine σ τ ρ ε} {limit : Option Nat}
    {course : Course σ τ ρ ε} {begun handed asked : Nat} (hlimit : limit ≠ some 0)
    (horderly : course.Orderly limit begun handed asked) :
    course.Over ∨ ∃ next, course.Resume routine next := by
  by_cases hover : course.Over
  · exact Or.inl hover
  · obtain ⟨status, hstatus, hlive⟩ : ∃ status ∈ course.pool.tasks,
        ∀ ending, status ≠ .ended ending := by
      simpa [Over] using hover
    obtain ⟨i, hi⟩ := List.mem_iff_getElem?.mp hstatus
    obtain ⟨task, htask⟩ : ∃ task, status.task? = some task := by
      cases status with
      | ended ending => exact absurd rfl (hlive ending)
      | _ => exact ⟨_, rfl⟩
    obtain ⟨j, called', hdue⟩ := horderly.lined.exists_due hlimit hi htask
    exact Or.inr ⟨_, .due hdue⟩

/-! ## Finitely many turns -/

/-- The world changes the state, any number of times. -/
abbrev Passes (world : σ → σ → Prop) : σ → σ → Prop := Relation.ReflTransGen world

/-- A task takes finitely many turns, in whatever possible states it has them; they keep to possible
states, and none of them suspends the task for ever. -/
inductive Coroutine.Finite (routine : Coroutine σ τ ρ ε) (possible : σ → Prop) : τ → Prop
  | intro {task : τ}
      (hstate : ∀ {s}, possible s → possible (routine.resume task s).2)
      (hdelay : ∀ {s s' delay rest}, possible s →
        routine.resume task s = (.ok (.paused delay rest), s') → delay ≠ none)
      (hrest : ∀ {s s' delay rest}, possible s →
        routine.resume task s = (.ok (.paused delay rest), s') → routine.Finite possible rest) :
      routine.Finite possible task

/-- In a list one element is replaced by one below it. -/
inductive OneBelow {α : Type} (r : α → α → Prop) : List α → List α → Prop
  | head {a b : α} {l : List α} (h : r a b) : OneBelow r (a :: l) (b :: l)
  | tail {a : α} {l l' : List α} (h : OneBelow r l l') : OneBelow r (a :: l) (a :: l')

theorem oneBelow_set {α : Type} {r : α → α → Prop} {l : List α} {i : Nat} {a b : α}
    (hget : l[i]? = some b) (h : r a b) : OneBelow r (l.set i a) l := by
  induction l generalizing i with
  | nil => simp at hget
  | cons head tail ih =>
      cases i with
      | zero =>
          rw [List.getElem?_cons_zero, Option.some.injEq] at hget
          subst hget
          exact .head h
      | succ i =>
          rw [List.getElem?_cons_succ] at hget
          exact .tail (ih hget)

theorem acc_oneBelow {α : Type} {r : α → α → Prop} {l : List α} (hall : ∀ a ∈ l, Acc r a) :
    Acc (OneBelow r) l := by
  induction l with
  | nil => exact ⟨_, fun _ h => nomatch h⟩
  | cons head tail ih =>
      have htail := ih fun a ha => hall a (List.mem_cons_of_mem _ ha)
      have hhead := hall head List.mem_cons_self
      clear ih hall
      induction hhead generalizing tail with
      | intro head _ ihhead =>
          induction htail with
          | intro tail htail ihtail =>
              refine ⟨_, fun next hnext => ?_⟩
              cases hnext with
              | head h => exact ihhead _ h tail ⟨_, htail⟩
              | tail h => exact ihtail _ h

/-- A status that a turn leads to. -/
def Status.Below (routine : Coroutine σ τ ρ ε) (possible : σ → Prop)
    (after before : Status τ ρ ε) : Prop :=
  ∃ task state, possible state ∧ before.task? = some task ∧
    after = .after (routine.resume task state).1

theorem Status.acc_below_of_ended (routine : Coroutine σ τ ρ ε) (possible : σ → Prop)
    {status : Status τ ρ ε} (hended : status.task? = none) :
    Acc (Status.Below routine possible) status := by
  refine ⟨_, fun after hbelow => ?_⟩
  obtain ⟨task, state, -, hsome, -⟩ := hbelow
  rw [hended] at hsome
  cases hsome

theorem Coroutine.Finite.acc_below {routine : Coroutine σ τ ρ ε} {possible : σ → Prop} {task : τ}
    (hfinite : routine.Finite possible task) {status : Status τ ρ ε}
    (htask : status.task? = some task) : Acc (Status.Below routine possible) status := by
  induction hfinite generalizing status with
  | intro _ _ _ ih =>
      refine ⟨_, fun after hbelow => ?_⟩
      obtain ⟨_, state, hpossible, hsame, rfl⟩ := hbelow
      obtain rfl := Option.some.inj (htask.symm.trans hsame)
      rcases hturn : routine.resume _ state with ⟨failure | (result | ⟨delay, rest⟩), s'⟩
      · exact Status.acc_below_of_ended routine possible rfl
      · exact Status.acc_below_of_ended routine possible rfl
      · exact ih hpossible hturn rfl

namespace Course

/-- A course that follows another when a task has been resumed, in whatever state the world has left
to it. -/
def Follows (routine : Coroutine σ τ ρ ε) (world : σ → σ → Prop) (next course : Course σ τ ρ ε) :
    Prop :=
  ∃ state, Passes world course.state state ∧ Resume routine { course with state } next

/-- The state is possible, what is left of the tasks is finite, and no task has suspended itself for
ever. -/
structure Finite (routine : Coroutine σ τ ρ ε) (possible : σ → Prop) (course : Course σ τ ρ ε) :
    Prop where
  state : possible course.state
  tasks : ∀ status ∈ course.pool.tasks.map Status.plain, ∀ task, status.task? = some task →
    routine.Finite possible task
  turns : ∀ turn ∈ course.turns, turn.outcome ≠ .paused none

variable {routine : Coroutine σ τ ρ ε} {world : σ → σ → Prop} {possible : σ → Prop}
  {limit : Option Nat} {course next : Course σ τ ρ ε} {begun handed asked : Nat}

theorem finite_ofTasks {tasks : List τ} (hfinite : ∀ task ∈ tasks, routine.Finite possible task)
    (limit : Option Int) {state : σ} (hstate : possible state) :
    (ofTasks tasks limit state : Course σ τ ρ ε).Finite routine possible := by
  refine ⟨hstate, fun status hstatus task htask => ?_, fun turn hturn => nomatch hturn⟩
  simp only [ofTasks, Pool.ofTasks, List.map_map, List.mem_map] at hstatus
  obtain ⟨task', hmem, rfl⟩ := hstatus
  cases htask
  exact hfinite _ hmem

theorem Finite.of_passes (hfinite : course.Finite routine possible)
    (hworld : ∀ {s s'}, world s s' → possible s → possible s') {state : σ}
    (hpasses : Passes world course.state state) :
    ({ course with state } : Course σ τ ρ ε).Finite routine possible := by
  refine ⟨?_, hfinite.tasks, hfinite.turns⟩
  induction hpasses with
  | refl => exact hfinite.state
  | tail _ hstep ih => exact hworld hstep ih

theorem Finite.resume (hfinite : course.Finite routine possible)
    (horderly : course.Orderly limit begun handed asked) (hresume : course.Resume routine next) :
    next.Finite routine possible := by
  cases horderly.step hresume with
  | waits _ _ hstate hturns hplain =>
      exact ⟨hstate ▸ hfinite.state, hplain ▸ hfinite.tasks, hturns ▸ hfinite.turns⟩
  | @turn _ _ _ i status _ task _ _ _ hstatus htask hstate hturns hplain =>
      have hmem : status.plain ∈ course.pool.tasks.map Status.plain :=
        List.mem_map_of_mem (List.mem_of_getElem? hstatus)
      obtain ⟨hkeeps, hdelay, hrest⟩ :=
        hfinite.tasks _ hmem task ((Status.task?_plain status).trans htask)
      refine ⟨hstate ▸ hkeeps hfinite.state, fun other hother task' htask' => ?_,
        fun turn hmem => ?_⟩
      all_goals
        obtain ⟨result, state, hturn⟩ : ∃ result state,
          routine.resume task course.state = (result, state) := ⟨_, _, rfl⟩
        rw [hturn] at hplain hturns
      · rw [hplain] at hother
        rcases List.mem_or_eq_of_mem_set hother with hold | rfl
        · exact hfinite.tasks other hold task' htask'
        · rcases result with failure | (result | ⟨delay, rest⟩)
          · cases htask'
          · cases htask'
          · cases htask'
            exact hrest hfinite.state hturn
      · rw [hturns] at hmem
        rcases List.mem_append.mp hmem with hold | hnew
        · exact hfinite.turns turn hold
        · rw [List.mem_singleton.mp hnew]
          rcases result with failure | (result | ⟨delay, rest⟩)
          · simp [Outcome.of]
          · simp [Outcome.of]
          · simpa [Outcome.of] using hdelay hfinite.state hturn

theorem Finite.reaches (hfinite : course.Finite routine possible)
    (hworld : ∀ {s s'}, world s s' → possible s → possible s')
    (horderly : course.Orderly limit begun handed asked)
    (hreaches : Reaches routine world course next) : next.Finite routine possible := by
  induction hreaches with
  | refl => exact hfinite
  | tail hbefore hstep ih =>
      obtain ⟨_, _, _, hnow⟩ := horderly.exists_reaches hbefore
      cases hstep with
      | resume hresume => exact ih.resume hnow hresume
      | world hstep => exact ih.of_passes hworld (.single hstep)

/-- Where the tasks are finite, only finitely many can be resumed one after the other. -/
theorem Finite.acc_follows (hfinite : course.Finite routine possible)
    (hworld : ∀ {s s'}, world s s' → possible s → possible s')
    (horderly : course.Orderly limit begun handed asked) : Acc (Follows routine world) course := by
  -- a turn brings a task further, and a task that has to wait is one less that has yet to ask
  have hacc : Acc (OneBelow (Status.Below routine possible))
      (course.pool.tasks.map Status.plain) := by
    refine acc_oneBelow fun status hstatus => ?_
    cases htask : status.task? with
    | none => exact Status.acc_below_of_ended routine possible htask
    | some task => exact (hfinite.tasks status hstatus task htask).acc_below htask
  generalize hplain : course.pool.tasks.map Status.plain = plain at hacc
  induction hacc generalizing course begun handed asked with
  | intro plain _ ih =>
      generalize hleft : course.pool.tasks.length - asked = left
      induction left using Nat.strongRecOn generalizing course begun handed asked with
      | ind left ihleft =>
          refine ⟨_, fun next hfollows => ?_⟩
          obtain ⟨state, hpasses, hresume⟩ := hfollows
          have hbetween : Orderly limit { course with state } begun handed asked :=
            ⟨horderly.lined, horderly.starts, horderly.endings⟩
          have hfinite' := hfinite.of_passes hworld hpasses
          have hnext := hfinite'.resume hbetween hresume
          have hstepped := hbetween.step hresume
          have hlength := hstepped.length
          cases hstepped with
          | waits horderly' hasked _ _ hsame =>
              refine ihleft _ ?_ hnext horderly' (hsame.trans hplain) rfl
              simp only at hasked hlength
              omega
          | @turn _ _ _ i status _ task horderly' _ _ hstatus htask _ _ hset =>
              refine ih _ ?_ hnext horderly' rfl
              have hget : (course.pool.tasks.map Status.plain)[i]? = some status.plain := by
                rw [List.getElem?_map, hstatus]
                rfl
              have hbelow : Status.Below routine possible
                  (.after (routine.resume task state).1) status.plain :=
                ⟨task, state, hfinite'.state, (Status.task?_plain status).trans htask, rfl⟩
              rw [hset, ← hplain]
              exact oneBelow_set hget hbelow

end Course

end BuildRunner.Schedule
