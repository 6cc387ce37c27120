import BuildRunner.Proofs.Schedule.Stepping

/-!
# Results

Where tasks do not affect one another, each takes in a common run the turns that it takes alone.  So
the results do not depend on who is resumed when, nor on how many may run at a time.
-/

namespace BuildRunner.Schedule

variable {σ τ ρ ε : Type}

/-! ## Alone -/

/-- A task that runs alone, while the world may change the state between its turns: what its turns
have come to, where the task stands after them, and the state. -/
inductive Coroutine.Alone (routine : Coroutine σ τ ρ ε) (world : σ → σ → Prop) (task : τ) (s : σ) :
    List (Outcome ρ ε) → Status τ ρ ε → σ → Prop
  | start : routine.Alone world task s [] (.fresh task) s
  | world {outcomes : List (Outcome ρ ε)} {status : Status τ ρ ε} {t t' : σ}
      (halone : routine.Alone world task s outcomes status t) (hworld : world t t') :
      routine.Alone world task s outcomes status t'
  | turn {outcomes : List (Outcome ρ ε)} {status : Status τ ρ ε} {rest : τ} {t : σ}
      (halone : routine.Alone world task s outcomes status t) (hrest : status.task? = some rest) :
      routine.Alone world task s (outcomes ++ [.of (routine.resume rest t).1])
        (.after (routine.resume rest t).1) (routine.resume rest t).2

theorem Coroutine.Alone.passes {routine : Coroutine σ τ ρ ε} {world : σ → σ → Prop} {task : τ}
    {s t t' : σ} {outcomes : List (Outcome ρ ε)} {status : Status τ ρ ε}
    (halone : routine.Alone world task s outcomes status t) (hpasses : Passes world t t') :
    routine.Alone world task s outcomes status t' := by
  induction hpasses with
  | refl => exact halone
  | tail _ hworld ih => exact ih.world hworld

/-! ## Tasks that do not affect one another -/

/-- What is left of the task of an index in a state of a common run, and what is left of it in a
state of a run of its own, may be alike.  Then a turn comes to the same in both, and leaves what is
alike again; so does a turn of another task and a change of the world, if the world may change the
other state as well. -/
structure Apart (routine : Coroutine σ τ ρ ε) (world : σ → σ → Prop)
    (alike : Nat → τ → σ → τ → σ → Prop) : Prop where
  outcome : ∀ {i a s b t}, alike i a s b t →
    Outcome.of (routine.resume a s).1 = Outcome.of (routine.resume b t).1
  rest : ∀ {i a s b t delay delay' a' b' s' t'}, alike i a s b t →
    routine.resume a s = (.ok (.paused delay a'), s') →
    routine.resume b t = (.ok (.paused delay' b'), t') → alike i a' s' b' t'
  others : ∀ {i j a b c d s t u}, i ≠ j → alike i a s b t → alike j c s d u →
    ∃ t', Passes world t t' ∧ alike i a (routine.resume c s).2 b t'
  world : ∀ {i a s b t s'}, alike i a s b t → world s s' →
    ∃ t', Passes world t t' ∧ alike i a s' b t'

/-- A task stands where it stands in a run of its own. -/
inductive Status.Alike (alike : τ → σ → τ → σ → Prop) (s t : σ) :
    Status τ ρ ε → Status τ ρ ε → Prop
  | live {status alone : Status τ ρ ε} {a b : τ} (hstatus : status.task? = some a)
      (halone : alone.task? = some b) (halike : alike a s b t) : Status.Alike alike s t status alone
  | ended {ending : Except ε ρ} : Status.Alike alike s t (.ended ending) (.ended ending)

section

variable {routine : Coroutine σ τ ρ ε} {world : σ → σ → Prop}
  {alike : Nat → τ → σ → τ → σ → Prop} {i : Nat} {s s' t : σ}

theorem Apart.after (hapart : Apart routine world alike) {a b : τ} (halike : alike i a s b t) :
    Status.Alike (alike i) (routine.resume a s).2 (routine.resume b t).2
      (.after (routine.resume a s).1 : Status τ ρ ε) (.after (routine.resume b t).1) := by
  have hsame := hapart.outcome halike
  rcases hours : routine.resume a s with ⟨failure | (result | ⟨delay, a'⟩), s'⟩ <;>
    rcases hown : routine.resume b t with ⟨failure' | (result' | ⟨delay', b'⟩), t'⟩ <;>
    simp only [hours, hown, Outcome.of, Outcome.ended.injEq, Except.error.injEq, Except.ok.injEq,
      Outcome.paused.injEq, reduceCtorEq] at hsame
  · subst hsame
    exact .ended
  · subst hsame
    exact .ended
  · exact .live rfl rfl (hapart.rest halike hours hown)

/-- What moves the world of the others moves that of a task as well. -/
theorem Status.Alike.passes {status alone : Status τ ρ ε}
    (halike : Status.Alike (alike i) s t status alone)
    (hmoves : ∀ {a b}, status.task? = some a → alike i a s b t →
      ∃ t', Passes world t t' ∧ alike i a s' b t') :
    ∃ t', Passes world t t' ∧ Status.Alike (alike i) s' t' status alone := by
  cases halike with
  | live hstatus halone halike =>
      obtain ⟨t', hpasses, hnext⟩ := hmoves hstatus halike
      exact ⟨t', hpasses, .live hstatus halone hnext⟩
  | ended => exact ⟨t, .refl, .ended⟩

end

/-! ## Courses -/

namespace Course

/-- What the turns of the task of an index have come to. -/
def outcomesOf (course : Course σ τ ρ ε) (i : Nat) : List (Outcome ρ ε) :=
  (course.turns.filter fun turn => turn.index == i).map Turn.outcome

theorem outcomesOf_concat {course next : Course σ τ ρ ε} {turn : Turn ρ ε}
    (hturns : next.turns = course.turns ++ [turn]) (i : Nat) :
    next.outcomesOf i =
      course.outcomesOf i ++ if turn.index = i then [turn.outcome] else [] := by
  rw [outcomesOf, hturns, List.filter_append, List.map_append, outcomesOf]
  congr 1
  by_cases hi : turn.index = i
  · simp [hi]
  · simp [hi, beq_false_of_ne hi]

/-- Each task has taken the turns that it takes alone. -/
structure AsAlone (routine : Coroutine σ τ ρ ε) (world : σ → σ → Prop)
    (alike : Nat → τ → σ → τ → σ → Prop) (tasks : List τ) (s : σ) (course : Course σ τ ρ ε) :
    Prop where
  alone : ∀ {i status}, (course.pool.tasks.map Status.plain)[i]? = some status →
    ∃ task alone t, tasks[i]? = some task ∧
      routine.Alone world task s (course.outcomesOf i) alone t ∧
        Status.Alike (alike i) course.state t status alone

variable {routine : Coroutine σ τ ρ ε} {world : σ → σ → Prop}
  {alike : Nat → τ → σ → τ → σ → Prop} {tasks : List τ} {s : σ} {course next : Course σ τ ρ ε}
  {limit : Option Nat} {begun handed asked i : Nat}

theorem asAlone_ofTasks (hstart : ∀ {i task}, tasks[i]? = some task → alike i task s task s)
    (limit : Option Int) : (ofTasks tasks limit s).AsAlone routine world alike tasks s := by
  refine ⟨fun {i status} hstatus => ?_⟩
  simp only [ofTasks, Pool.ofTasks, List.map_map, List.getElem?_map, Option.map_eq_some_iff]
    at hstatus
  obtain ⟨task, htask, rfl⟩ := hstatus
  exact ⟨task, .fresh task, s, htask, .start, .live rfl rfl (hstart htask)⟩

namespace AsAlone

theorem of_world (halone : course.AsAlone routine world alike tasks s)
    (hapart : Apart routine world alike) {state : σ} (hworld : world course.state state) :
    ({ course with state } : Course σ τ ρ ε).AsAlone routine world alike tasks s := by
  refine ⟨fun {i status} hstatus => ?_⟩
  obtain ⟨task, alone, t, htask, hruns, halike⟩ := halone.alone hstatus
  obtain ⟨t', hpasses, hnext⟩ := halike.passes fun _ ha => hapart.world ha hworld
  exact ⟨task, alone, t', htask, hruns.passes hpasses, hnext⟩

/-- A task that has not ended goes on as it does alone. -/
theorem live (halone : course.AsAlone routine world alike tasks s) {status : Status τ ρ ε} {a : τ}
    (hstatus : course.pool.tasks[i]? = some status) (ha : status.task? = some a) :
    ∃ task alone t b, tasks[i]? = some task ∧
      routine.Alone world task s (course.outcomesOf i) alone t ∧ alone.task? = some b ∧
        alike i a course.state b t := by
  have hplain : (course.pool.tasks.map Status.plain)[i]? = some status.plain := by
    rw [List.getElem?_map, hstatus]
    rfl
  rw [← Status.task?_plain] at ha
  obtain ⟨task, alone, t, htask, hruns, hboth⟩ := halone.alone hplain
  generalize status.plain = plain at ha hboth
  cases hboth with
  | live hsame hb halike =>
      obtain rfl := Option.some.inj (hsame.symm.trans ha)
      exact ⟨task, alone, t, _, htask, hruns, hb, halike⟩
  | ended => cases ha

theorem resume (halone : course.AsAlone routine world alike tasks s)
    (hapart : Apart routine world alike) (horderly : course.Orderly limit begun handed asked)
    (hresume : course.Resume routine next) : next.AsAlone routine world alike tasks s := by
  refine ⟨fun {j other} hother => ?_⟩
  cases horderly.step hresume with
  | waits _ _ hstate hturns hplain =>
      rw [outcomesOf, hstate, hturns]
      exact halone.alone (hplain ▸ hother)
  | @turn _ _ _ i _ _ a _ _ _ hstatus ha hstate hturns hplain =>
      obtain ⟨task, alone, t, b, htask, hruns, hb, halike⟩ := halone.live hstatus ha
      rw [hplain] at hother
      rw [outcomesOf_concat hturns, hstate]
      by_cases hj : i = j
      · subst hj
        have hlt : i < (course.pool.tasks.map Status.plain).length := by
          simpa using (List.getElem?_eq_some_iff.mp hstatus).1
        rw [List.getElem?_set_self hlt, Option.some.injEq] at hother
        rw [if_pos rfl, hapart.outcome halike, ← hother]
        exact ⟨task, _, _, htask, hruns.turn hb, hapart.after halike⟩
      · rw [List.getElem?_set_ne hj] at hother
        obtain ⟨task', alone', t', htask', hruns', hboth'⟩ := halone.alone hother
        obtain ⟨t'', hpasses, hnext⟩ :=
          hboth'.passes fun _ ha' => hapart.others (Ne.symm hj) ha' halike
        rw [if_neg hj, List.append_nil]
        exact ⟨task', alone', t'', htask', hruns'.passes hpasses, hnext⟩

theorem reaches (halone : course.AsAlone routine world alike tasks s)
    (hapart : Apart routine world alike) (horderly : course.Orderly limit begun handed asked)
    (hreaches : Reaches routine world course next) :
    next.AsAlone routine world alike tasks s := by
  induction hreaches with
  | refl => exact halone
  | tail hbefore hstep ih =>
      obtain ⟨_, _, _, hnow⟩ := horderly.exists_reaches hbefore
      cases hstep with
      | resume hresume => exact ih.resume hapart hnow hresume
      | world hworld => exact ih.of_world hapart hworld

/-- A task that has ended in a common run has ended so alone. -/
theorem of_ended (halone : course.AsAlone routine world alike tasks s) {ending : Except ε ρ}
    (hended : course.pool.tasks[i]? = some (.ended ending)) :
    ∃ task t, tasks[i]? = some task ∧
      routine.Alone world task s (course.outcomesOf i) (.ended ending) t := by
  obtain ⟨task, alone, t, htask, hruns, hboth⟩ :=
    halone.alone (getElem?_map_plain_eq_ended.mpr hended)
  cases hboth with
  | live hnone => cases hnone
  | ended => exact ⟨task, t, htask, hruns⟩

end AsAlone

variable {own : Nat → Except ε ρ}

/-- Once all have ended, the tasks have come to what they come to alone. -/
theorem Over.tasks_eq (hover : course.Over)
    (hown : ∀ {i ending}, course.pool.tasks[i]? = some (.ended ending) → ending = own i) :
    course.pool.tasks = (List.range course.pool.tasks.length).map fun i => .ended (own i) := by
  refine List.ext_getElem (by simp) fun i hi _ => ?_
  obtain ⟨ending, hending⟩ := hover _ (List.getElem_mem hi)
  rw [List.getElem_map, List.getElem_range, hending,
    hown ((List.getElem?_eq_getElem hi).trans (congrArg some hending))]

theorem Over.failure_eq_none_iff (hover : course.Over)
    (horderly : course.Orderly limit begun handed asked)
    (hown : ∀ {i ending}, course.pool.tasks[i]? = some (.ended ending) → ending = own i) :
    course.failure = none ↔
      ∀ i, i < course.pool.tasks.length → ∃ result, own i = .ok result := by
  rw [horderly.failure_eq_none_iff]
  constructor
  · intro hnone i hi
    obtain ⟨ending, hending⟩ := hover _ (List.getElem_mem hi)
    have hget := (List.getElem?_eq_getElem hi).trans (congrArg some hending)
    rw [← hown hget]
    cases ending with
    | ok result => exact ⟨result, rfl⟩
    | error failure => exact absurd hget (hnone i failure)
  · intro hok i failure hfailed
    obtain ⟨result, hresult⟩ := hok i (List.getElem?_eq_some_iff.mp hfailed).1
    cases (hown hfailed).trans hresult

theorem map_ok_eq {results : List ρ}
    (htasks : course.pool.tasks = results.map fun result => .ended (.ok result))
    (hown : ∀ {i ending}, course.pool.tasks[i]? = some (.ended ending) → ending = own i) :
    results.map Except.ok = (List.range course.pool.tasks.length).map own := by
  refine List.ext_getElem (by simp [htasks]) fun i hi _ => ?_
  rw [List.length_map] at hi
  have hget : course.pool.tasks[i]? = some (.ended (.ok results[i])) := by simp [htasks, hi]
  rw [List.getElem_map, List.getElem_map, List.getElem_range, hown hget]

end Course

/-! ## The results of a run -/

/-- Whatever the limit, and whoever is resumed when, finite tasks that do not affect one another come
to an end, each after one run, which is one that it makes alone.  If they all end well alone, running
them together gives the results that they give alone, in the order of the tasks; if some fails, it
fails as the task did that failed first. -/
theorem results_as_alone (routine : Coroutine σ τ ρ ε) (clock : Clock σ) (tasks : List τ)
    (possible : σ → Prop) (world : σ → σ → Prop) (alike : Nat → τ → σ → τ → σ → Prop)
    (own : Nat → Except ε ρ) (s : σ) (hs : possible s)
    (hworld : ∀ {s s'}, world s s' → possible s → possible s')
    (helapse : ∀ n s, world s (clock.elapse n s))
    (hclock : ∀ n s, clock.now (clock.elapse n s) = clock.now s + n)
    (hfinite : ∀ task ∈ tasks, routine.Finite possible task)
    (hapart : Apart routine world alike)
    (hstart : ∀ {i task}, tasks[i]? = some task → alike i task s task s)
    (hown : ∀ {i task outcomes ending t}, tasks[i]? = some task →
      routine.Alone world task s outcomes (.ended ending) t → ending = own i)
    (limit : Option Int) :
    (∀ course, Course.Reaches routine world (.ofTasks tasks limit s) course →
      Acc (Course.Follows routine world) course ∧
      (course.Over ∨ ∃ next, course.Resume routine next) ∧
      (∀ (i : Nat) (ending : Except ε ρ), course.pool.tasks[i]? = some (.ended ending) →
        ending = own i ∧ ∃ task t, tasks[i]? = some task ∧
          routine.Alone world task s (course.outcomesOf i) (.ended ending) t) ∧
      (course.Over →
        course.pool.tasks = (List.range tasks.length).map (fun i => .ended (own i)) ∧
        (course.failure = none ↔ ∀ i, i < tasks.length → ∃ result, own i = .ok result))) ∧
    ∃ course, Course.Reaches routine world (.ofTasks tasks limit s) course ∧
      ((∀ i, i < tasks.length → ∃ result, own i = .ok result) → course.Over ∧
        ∃ results, runPool routine clock tasks limit s = (.ok results, course.state) ∧
          results.map Except.ok = (List.range tasks.length).map own) ∧
      ((∃ i failure, i < tasks.length ∧ own i = .error failure) →
        ∃ failure, course.failure = some failure ∧
          (runPool routine clock tasks limit s).1 = .error (some failure)) := by
  have horderly : (Course.ofTasks tasks limit s : Course σ τ ρ ε).Orderly (seatLimit limit) 0 0 0 :=
    Course.orderly_ofTasks tasks limit s
  have hcourse : (Course.ofTasks tasks limit s).Finite routine possible :=
    Course.finite_ofTasks hfinite limit hs
  have halone : (Course.ofTasks tasks limit s).AsAlone routine world alike tasks s :=
    Course.asAlone_ofTasks hstart limit
  have hended : ∀ {course : Course σ τ ρ ε},
      Course.Reaches routine world (.ofTasks tasks limit s) course →
      ∀ {i : Nat} {ending : Except ε ρ}, course.pool.tasks[i]? = some (.ended ending) →
        ending = own i ∧ ∃ task t, tasks[i]? = some task ∧
          routine.Alone world task s (course.outcomesOf i) (.ended ending) t := by
    intro course hreaches i ending hi
    obtain ⟨task, t, htask, hruns⟩ := (halone.reaches hapart horderly hreaches).of_ended hi
    exact ⟨hown htask hruns, task, t, htask, hruns⟩
  have hlength : ∀ {course : Course σ τ ρ ε},
      Course.Reaches routine world (.ofTasks tasks limit s) course →
        course.pool.tasks.length = tasks.length := by
    intro course hreaches
    rw [Course.length_of_reaches horderly hreaches]
    simp [Course.ofTasks, Pool.ofTasks]
  refine ⟨fun course hreaches => ?_, ?_⟩
  · obtain ⟨_, _, _, hnow⟩ := horderly.exists_reaches hreaches
    refine ⟨(hcourse.reaches hworld horderly hreaches).acc_follows hworld hnow,
      Course.over_or_exists_resume (seatLimit_ne_zero limit) hnow,
      fun i ending => hended hreaches, fun hover => ?_⟩
    rw [← hlength hreaches]
    exact ⟨hover.tasks_eq fun hi => (hended hreaches hi).1,
      hover.failure_eq_none_iff hnow fun hi => (hended hreaches hi).1⟩
  · obtain ⟨course, hreaches, hfails, hends⟩ :=
      exists_course_runPool helapse hclock (hcourse.acc_follows hworld horderly)
        fun next hnext => (hcourse.reaches hworld horderly hnext).turns
    obtain ⟨_, _, _, hnow⟩ := horderly.exists_reaches hreaches
    refine ⟨course, hreaches, fun hok => ?_, fun hbad => ?_⟩
    · have hnone : course.failure = none := by
        refine hnow.failure_eq_none_iff.mpr fun i failure hfailed => ?_
        obtain ⟨result, hresult⟩ :=
          hok i (hlength hreaches ▸ (List.getElem?_eq_some_iff.mp hfailed).1)
        cases (hended hreaches hfailed).1.trans hresult
      obtain ⟨results, hrun, htasks⟩ := hends hnone
      have hover : course.Over := by
        intro status hstatus
        rw [htasks] at hstatus
        obtain ⟨result, -, rfl⟩ := List.mem_map.mp hstatus
        exact ⟨.ok result, rfl⟩
      refine ⟨hover, results, hrun, ?_⟩
      rw [← hlength hreaches]
      exact Course.map_ok_eq htasks fun hi => (hended hreaches hi).1
    · obtain ⟨i, failure, hi, hfailure⟩ := hbad
      cases hfailed : course.failure with
      | some first => exact ⟨first, rfl, hfails first hfailed⟩
      | none =>
          obtain ⟨results, -, htasks⟩ := hends hfailed
          have hresults := Course.map_ok_eq htasks fun hi => (hended hreaches hi).1
          have hget := congrArg (fun endings : List (Except ε ρ) => endings[i]?) hresults
          simp [hlength hreaches, hi, hfailure] at hget

/-! ## Tasks that report their steps -/

/-- What may be left of a task that reports its steps under a name. -/
inductive Steps (name : String) : TaskState → Prop
  | fresh {count : Nat} : Steps name (.fresh (.ofSteps (name, count)))
  | stepping {logged left : Nat} : Steps name (.stepping name logged left none)

theorem Steps.exists_progress (κ : Type) [Program κ] {name : String} {state : TaskState}
    (hsteps : Steps name state) :
    ∃ progress : Progress TaskState TaskResult,
      (progress = .ended (.name name) ∨
        ∃ rest, progress = .paused (some 0) rest ∧ Steps name rest) ∧
      ∀ m : Machine κ, m.PollsAtOnce →
        (Act.coroutine.resume state m).1 = .ok progress ∧
          (Act.coroutine.resume state m).2.PollsAtOnce := by
  obtain ⟨line, logged, left, hturn⟩ : ∃ line logged left, ∀ m : Machine κ,
      (Act.turn state : Act κ (Progress TaskState TaskResult)).run m =
        (Act.goOnStepping name logged left none).run { m with trace := m.trace ++ [line] } := by
    cases hsteps with
    | @fresh count => exact ⟨_, 0, count, Act.run_turn_steps name count⟩
    | @stepping logged left => exact ⟨_, _, _, Act.run_turn_stepping name logged left⟩
  cases left with
  | zero =>
      refine ⟨.ended (.name name), Or.inl rfl, fun m hpolls => ?_⟩
      rw [Act.resume_of_last hturn]
      exact ⟨rfl, hpolls⟩
  | succ left =>
      refine ⟨.paused (some 0) (.stepping name logged (left + 1) none),
        Or.inr ⟨_, rfl, .stepping⟩, fun m hpolls => ?_⟩
      rw [Act.resume_of_more hturn hpolls]
      exact ⟨rfl, hpolls⟩

section

variable {κ : Type} [Program κ] {name : String} {state : TaskState}

/-- Tasks that report their steps do not affect one another. -/
theorem apart_steps (names : Nat → String) :
    Apart Act.coroutine (fun m m' : Machine κ => m.PollsAtOnce → m'.PollsAtOnce)
      fun i a m b m' => a = b ∧ Steps (names i) a ∧ m.PollsAtOnce ∧ m'.PollsAtOnce where
  outcome := by
    rintro i a m _ m' ⟨rfl, hsteps, hm, hm'⟩
    obtain ⟨progress, -, hturn⟩ := hsteps.exists_progress κ
    rw [(hturn m hm).1, (hturn m' hm').1]
  rest := by
    rintro i a m _ m' delay delay' a' b' s' t' ⟨rfl, hsteps, hm, hm'⟩ hours hown
    obtain ⟨progress, hprogress, hturn⟩ := hsteps.exists_progress κ
    have hfirst := hturn m hm
    have hsecond := hturn m' hm'
    rw [hours, Except.ok.injEq] at hfirst
    rw [hown, Except.ok.injEq] at hsecond
    obtain ⟨rfl, hs'⟩ := hfirst
    obtain ⟨hsame, ht'⟩ := hsecond
    cases hsame
    rcases hprogress with hended | ⟨rest, hpaused, hrest⟩
    · cases hended
    · cases hpaused
      exact ⟨rfl, hrest, hs', ht'⟩
  others := by
    rintro i j a _ c _ m m' _ - ⟨rfl, hsteps, hm, hm'⟩ ⟨rfl, hother, -, -⟩
    obtain ⟨progress, -, hturn⟩ := hother.exists_progress κ
    exact ⟨m', .refl, rfl, hsteps, (hturn m hm).2, hm'⟩
  world := by
    rintro i a m _ m' state ⟨rfl, hsteps, hm, hm'⟩ hworld
    exact ⟨m', .refl, rfl, hsteps, hworld hm, hm'⟩

/-- Alone such a task ends with its name. -/
theorem alone_steps {m t : Machine κ} (hm : m.PollsAtOnce) (hsteps : Steps name state)
    {outcomes : List (Outcome TaskResult Failure)} {status : Status TaskState TaskResult Failure}
    (halone : Act.coroutine.Alone (fun m m' : Machine κ => m.PollsAtOnce → m'.PollsAtOnce) state m
      outcomes status t) :
    t.PollsAtOnce ∧ (∀ rest, status.task? = some rest → Steps name rest) ∧
      ∀ ending, status = .ended ending → ending = .ok (.name name) := by
  induction halone with
  | start =>
      refine ⟨hm, fun rest hrest => ?_, fun ending hended => nomatch hended⟩
      cases hrest
      exact hsteps
  | world _ hworld ih => exact ⟨hworld ih.1, ih.2⟩
  | @turn _ _ rest t _ hrest ih =>
      obtain ⟨hpolls, hlive, -⟩ := ih
      obtain ⟨progress, hprogress, hturn⟩ := (hlive _ hrest).exists_progress κ
      obtain ⟨hresult, hnext⟩ := hturn t hpolls
      rw [hresult]
      refine ⟨hnext, fun rest' hrest' => ?_, fun ending hended => ?_⟩
      · rcases hprogress with rfl | ⟨rest, rfl, hsteps'⟩
        · cases hrest'
        · cases hrest'
          exact hsteps'
      · rcases hprogress with rfl | ⟨rest, rfl, -⟩
        · cases hended
          rfl
        · cases hended

end

/-- Under every limit two tasks of unequal length give their names. -/
theorem results_as_alone_steps :
    Act.restlessMachine.PollsAtOnce ∧
      Apart Act.coroutine (fun m m' : Machine Pause => m.PollsAtOnce → m'.PollsAtOnce)
        (fun i a m b m' => a = b ∧ Steps (if i = 0 then "a" else "b") a ∧ m.PollsAtOnce ∧
          m'.PollsAtOnce) ∧
      ∀ limit, ∃ m', runPool Act.coroutine Act.clock
        ([("a", 1), ("b", 2)].map fun task => .fresh (.ofSteps task)) limit Act.restlessMachine =
          (.ok [.name "a", .name "b"], m') := by
  have hpolls := Act.pollsAtOnce_restlessMachine
  have hapart := @apart_steps Pause _ fun i => if i = 0 then "a" else "b"
  have htasks : ∀ {i : Nat} {task : TaskState},
      (([("a", 1), ("b", 2)].map fun task => .fresh (.ofSteps task)) : List TaskState)[i]? =
        some task → Steps (if i = 0 then "a" else "b") task := by
    intro i task htask
    match i with
    | 0 => cases htask; exact .fresh
    | 1 => cases htask; exact .fresh
  refine ⟨hpolls, hapart, fun limit => ?_⟩
  obtain ⟨-, course, -, hends, -⟩ := results_as_alone Act.coroutine Act.clock
    ([("a", 1), ("b", 2)].map fun task => .fresh (.ofSteps task)) Machine.PollsAtOnce
    (fun m m' => m.PollsAtOnce → m'.PollsAtOnce)
    (fun i a m b m' => a = b ∧ Steps (if i = 0 then "a" else "b") a ∧ m.PollsAtOnce ∧
      m'.PollsAtOnce)
    (fun i => .ok (.name (if i = 0 then "a" else "b"))) Act.restlessMachine hpolls id
    (fun n m hm => (Act.unwritten_elapse n m hm).1) (fun n m => m.clock_elapse n)
    (fun state hstate => by
      obtain ⟨task, -, rfl⟩ := List.mem_map.mp hstate
      exact (Act.writes_ofSteps task).finite)
    hapart (fun htask => ⟨rfl, htasks htask, hpolls, hpolls⟩)
    (fun htask halone => (alone_steps hpolls (htasks htask) halone).2.2 _ rfl) limit
  obtain ⟨-, results, hrun, hresults⟩ := hends fun i _ => ⟨_, rfl⟩
  refine ⟨course.state, hrun.trans ?_⟩
  have hinjective : Function.Injective (Except.ok : TaskResult → Except Failure TaskResult) :=
    fun _ _ hsame => Except.ok.inj hsame
  rw [List.map_injective_iff.mpr hinjective
    (hresults.trans (rfl : _ = [TaskResult.name "a", TaskResult.name "b"].map Except.ok))]

end BuildRunner.Schedule
