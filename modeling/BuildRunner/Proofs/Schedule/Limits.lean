import BuildRunner.Proofs.Schedule.Stepping

/-!
# Limits

A limit holds in every course, whoever is resumed: no more tasks have begun and not ended than it
allows, and the tasks begin in their order.  While a task waits, every seat is taken or handed out,
so that finite tasks all come to their end.
-/

namespace BuildRunner.Schedule

variable {σ τ ρ ε : Type}

/-- Whatever the order in which suspended tasks are resumed, and whatever the world does to the
state in between, a limit bounds the tasks that have begun and not ended, the tasks begin in their
order, and while one waits, those that have begun and those that have been handed a seat are as many
as the limit allows.  If the tasks are finite, a task can be resumed until each has ended, and only
finitely often; and running them to their end gives their results, unless one fails. -/
theorem limit_kept_and_filled (routine : Coroutine σ τ ρ ε) (clock : Clock σ) (tasks : List τ)
    (k : Nat) (hk : 0 < k) (possible : σ → Prop)
    (helapse : ∀ n s, possible s → possible (clock.elapse n s))
    (hclock : ∀ n s, clock.now (clock.elapse n s) = clock.now s + n)
    (s : σ) (hs : possible s) :
    (∀ course : Course σ τ ρ ε,
      Course.Reaches routine (fun s s' => possible s → possible s') (.ofTasks tasks (some k) s)
          course →
        course.pool.Within k ∧
        (∃ begun, (course.turns.map Turn.index).eraseDups = List.range begun) ∧
        (∀ (i : Nat) (task : τ), course.pool.tasks[i]? = some (.blocked task) →
          course.pool.running + course.pool.handed = k) ∧
        (course.Over ∨ ∃ next, course.Resume routine next) ∧
        ((∀ task ∈ tasks, routine.Finite possible task) →
          Acc (Course.Follows routine fun s s' => possible s → possible s') course)) ∧
    ((∀ task ∈ tasks, routine.Finite possible task) →
      ∃ course : Course σ τ ρ ε,
        Course.Reaches routine (fun s s' => possible s → possible s') (.ofTasks tasks (some k) s)
          course ∧
        (∀ failure, course.failure = some failure →
          (runPool routine clock tasks (some k) s).1 = .error (some failure)) ∧
        (course.failure = none →
          ∃ results, runPool routine clock tasks (some k) s = (.ok results, course.state) ∧
            course.pool.tasks = results.map fun result => .ended (.ok result))) := by
  have hlimit : seatLimit (some (k : Int)) = some k := by
    simp [seatLimit, hk]
  have hpositive : some k ≠ some 0 := by simpa using Nat.pos_iff_ne_zero.mp hk
  have hstart : (Course.ofTasks tasks (some k) s : Course σ τ ρ ε).Orderly (some k) 0 0 0 :=
    hlimit ▸ Course.orderly_ofTasks tasks (some (k : Int)) s
  have hworld : ∀ {s s' : σ}, (possible s → possible s') → possible s → possible s' := id
  refine ⟨fun course hreaches => ?_, fun hfinite => ?_⟩
  · obtain ⟨begun, handed, asked, horderly⟩ := hstart.exists_reaches hreaches
    refine ⟨horderly.lined.within, ⟨begun, horderly.starts⟩,
      fun i task => horderly.lined.full, Course.over_or_exists_resume hpositive horderly,
      fun hfinite => ?_⟩
    have hcourse := (Course.finite_ofTasks hfinite (some (k : Int)) hs).reaches hworld hstart hreaches
    exact hcourse.acc_follows hworld horderly
  · have hcourse := Course.finite_ofTasks hfinite (some (k : Int)) hs
    exact exists_course_runPool helapse hclock (hcourse.acc_follows hworld hstart)
      fun next hnext => (hcourse.reaches hworld hstart hnext).turns

/-- At most two of three tasks that report their steps have begun and not ended. -/
theorem limit_kept_and_filled_steps :
    (∀ n (m : Machine Pause), m.PollsAtOnce → (Act.clock.elapse n m).PollsAtOnce) ∧
      (∀ n (m : Machine Pause), Act.clock.now (Act.clock.elapse n m) = Act.clock.now m + n) ∧
      Act.restlessMachine.PollsAtOnce ∧
      ∀ course, Course.Reaches Act.coroutine (fun m m' => m.PollsAtOnce → m'.PollsAtOnce)
          (.ofTasks ([("a", 1), ("b", 2), ("c", 0)].map fun task => .fresh (.ofSteps task)) (some 2)
            Act.restlessMachine) course →
        course.pool.Within 2 ∧
          Acc (Course.Follows Act.coroutine fun m m' => m.PollsAtOnce → m'.PollsAtOnce) course := by
  have helapse : ∀ n (m : Machine Pause), m.PollsAtOnce → (Act.clock.elapse n m).PollsAtOnce :=
    fun n m hpolls => (Act.unwritten_elapse n m hpolls).1
  have hclock : ∀ n (m : Machine Pause),
      Act.clock.now (Act.clock.elapse n m) = Act.clock.now m + n := fun n m => m.clock_elapse n
  refine ⟨helapse, hclock, Act.pollsAtOnce_restlessMachine, fun course hreaches => ?_⟩
  have hlimit := limit_kept_and_filled Act.coroutine Act.clock
    ([("a", 1), ("b", 2), ("c", 0)].map fun task => .fresh (.ofSteps task)) 2 (by decide)
    Machine.PollsAtOnce helapse hclock Act.restlessMachine Act.pollsAtOnce_restlessMachine
  obtain ⟨hwithin, -, -, -, hends⟩ := hlimit.1 course hreaches
  refine ⟨hwithin, hends fun state hstate => ?_⟩
  obtain ⟨task, -, rfl⟩ := List.mem_map.mp hstate
  exact (Act.writes_ofSteps task).finite

end BuildRunner.Schedule
