import BuildRunner.Proofs.Schedule.Traces

/-!
# Rounds

Where every task finds a seat and suspends without delay, the loop goes round: in each round every
task that has not ended has a turn, in the order of the tasks.  So the trace is made of rounds.
-/

namespace BuildRunner.Schedule

variable {σ τ ρ ε α : Type}

/-! ## Ranges -/

theorem flatMap_range_gap {f : Nat → List α} {j i : Nat} (hji : j ≤ i)
    (hgap : ∀ k, j ≤ k → k < i → f k = []) :
    (List.range i).flatMap f = (List.range j).flatMap f := by
  induction hji with
  | refl => rfl
  | @step i hji ih =>
      rw [List.range_succ, List.flatMap_append, List.flatMap_singleton, hgap i hji (by omega),
        List.append_nil]
      exact ih fun k hjk hki => hgap k hjk (by omega)

theorem filter_range_gap {p : Nat → Bool} {j i : Nat} (hji : j ≤ i)
    (hgap : ∀ k, j ≤ k → k < i → p k = false) : (List.range i).filter p = (List.range j).filter p := by
  induction hji with
  | refl => rfl
  | @step i hji ih =>
      rw [List.range_succ, List.filter_append, List.filter_singleton, hgap i hji (by omega)]
      simpa using ih fun k hjk hki => hgap k hjk (by omega)

/-- The first of those that are selected comes after others that are not. -/
theorem filter_range'_eq_cons {p : Nat → Bool} {j m i : Nat} {rest : List Nat}
    (hcons : (List.range' j m).filter p = i :: rest) :
    j ≤ i ∧ i < j + m ∧ p i = true ∧ (∀ k, j ≤ k → k < i → p k = false) ∧
      (List.range' (i + 1) (j + m - (i + 1))).filter p = rest := by
  induction m generalizing j with
  | zero => simp at hcons
  | succ m ih =>
      rw [List.range'_succ, List.filter_cons] at hcons
      split at hcons
      · next hp =>
          obtain ⟨rfl, hrest⟩ := List.cons.inj hcons
          refine ⟨Nat.le_refl _, by omega, hp, fun k hjk hki => by omega, ?_⟩
          rw [show j + (m + 1) - (j + 1) = m by omega, hrest]
      · next hp =>
          obtain ⟨hji, him, hpi, hgap, hrest⟩ := ih hcons
          refine ⟨by omega, by omega, hpi, fun k hjk hki => ?_, ?_⟩
          · rcases Nat.eq_or_lt_of_le hjk with rfl | hlt
            · simpa using hp
            · exact hgap k hlt hki
          · rw [← hrest, show j + (m + 1) - (i + 1) = j + 1 + m - (i + 1) by omega]

/-! ## Seats for all -/

def Status.isFresh : Status τ ρ ε → Bool
  | .fresh _ => true
  | _ => false

/-- There is a seat for every task that has yet to ask for one, and nobody waits. -/
structure Pool.Roomy (pool : Pool τ ρ ε) : Prop where
  waiters : pool.waiters = []
  free : ∀ {free}, pool.free = some free → pool.tasks.countP Status.isFresh ≤ free

namespace Pool.Roomy

variable {pool : Pool τ ρ ε} {i : Nat} {task : τ}

theorem countP_isFresh_set {old : Status τ ρ ε} (hold : pool.tasks[i]? = some old)
    (status : Status τ ρ ε) :
    (pool.tasks.set i status).countP Status.isFresh + old.isFresh.toNat =
      pool.tasks.countP Status.isFresh + status.isFresh.toNat := by
  obtain ⟨hlt, hget⟩ := List.getElem?_eq_some_iff.mp hold
  have hpos : old.isFresh = true → 0 < pool.tasks.countP Status.isFresh :=
    fun hfresh => List.countP_pos_iff.mpr ⟨_, List.mem_of_getElem? hold, hfresh⟩
  rw [List.countP_set hlt, hget]
  cases hfresh : old.isFresh with
  | false => cases status.isFresh <;> simp
  | true =>
      have := hpos hfresh
      cases status.isFresh <;> simp <;> omega

theorem setStatus (hroomy : pool.Roomy) {old status : Status τ ρ ε}
    (hold : pool.tasks[i]? = some old) (hfresh : status.isFresh = false) :
    (pool.setStatus i status).Roomy := by
  refine ⟨hroomy.waiters, fun {free} hfree => ?_⟩
  have hcount := countP_isFresh_set hold status
  have hless := hroomy.free hfree
  rw [hfresh, Bool.toNat_false] at hcount
  show (pool.tasks.set i status).countP Status.isFresh ≤ free
  omega

/-- A task that has not ended has its turn. -/
theorem exists_seated (hroomy : pool.Roomy) {status : Status τ ρ ε}
    (hstatus : pool.tasks[i]? = some status)
    (htask : status = .fresh task ∨ status = .suspended task) :
    ∃ pool', pool.seated i = some (pool', task) ∧ pool'.Roomy := by
  rcases htask with rfl | rfl
  · cases hfree : pool.free with
    | none =>
        exact ⟨pool.setStatus i (.suspended task), by simp [seated, hstatus, hfree],
          hroomy.setStatus hstatus rfl⟩
    | some free =>
        have hless := hroomy.free hfree
        have hcount := countP_isFresh_set hstatus (.suspended task)
        simp only [Status.isFresh, Bool.toNat_true, Bool.toNat_false, Nat.add_zero] at hcount
        obtain ⟨free, rfl⟩ : ∃ left, free = left + 1 := ⟨free - 1, by omega⟩
        refine ⟨{ pool with free := some free }.setStatus i (.suspended task), ?_,
          hroomy.waiters, fun {left} hleft => ?_⟩
        · simp [seated, hstatus, hfree, hroomy.waiters]
        · obtain rfl := Option.some.inj hleft
          show (pool.tasks.set i (.suspended task)).countP Status.isFresh ≤ free
          omega
  · exact ⟨_, seated_of_suspended hstatus, hroomy.setStatus hstatus rfl⟩

theorem release (hroomy : pool.Roomy) : pool.release.1.Roomy := by
  rw [release_of_no_waiters hroomy.waiters]
  refine ⟨hroomy.waiters, fun {free} hfree => ?_⟩
  obtain ⟨left, hleft, rfl⟩ := Option.map_eq_some_iff.mp hfree
  exact Nat.le_succ_of_le (hroomy.free hleft)

end Pool.Roomy

theorem roomy_ofTasks (tasks : List τ) {limit : Option Int}
    (hlimit : ∀ n, limit = some n → n ≤ 0 ∨ tasks.length ≤ n) :
    (Pool.ofTasks tasks limit : Pool τ ρ ε).Roomy := by
  refine ⟨rfl, fun {free} hfree => ?_⟩
  obtain ⟨n, rfl, hn⟩ := Option.bind_eq_some_iff.mp hfree
  split_ifs at hn with hpos
  obtain rfl := Option.some.inj hn
  have hlength : (Pool.ofTasks tasks (some n) : Pool τ ρ ε).tasks.length = tasks.length := by
    simp [Pool.ofTasks]
  have hless := hlimit n rfl
  have hcount := List.countP_le_length (p := Status.isFresh)
    (l := (Pool.ofTasks tasks (some n) : Pool τ ρ ε).tasks)
  omega

/-! ## The loop -/

/-- The events of a round. -/
def roundOf (own : Nat → List (List α)) (n r : Nat) : List α :=
  (List.range n).flatMap fun i => (own i)[r]?.getD []

/-- The turns that are left to a task. -/
def turnsLeft (own : Nat → List (List α)) (r j i : Nat) : List (List α) :=
  (own i).drop (if i < j then r + 1 else r)

/-- The loop is in the round `r`, in which the tasks in front of the one with the index `j` have had
their turns. -/
structure GoesRound (routine : Coroutine σ τ ρ ε) (fine : σ → Prop) (trace : σ → List α)
    (before : List α) (own : Nat → List (List α)) (n r j : Nat) (loop : Loop τ ρ ε) (s : σ) :
    Prop where
  state : fine s
  whole : trace s = before ++ (List.range r).flatMap (roundOf own n) ++
    (List.range j).flatMap fun i => (own i)[r]?.getD []
  le : j ≤ n
  parts : ∀ {i : Nat} {status : Status τ ρ ε}, loop.pool.tasks[i]? = some status →
    (∃ task, (status = .fresh task ∨ status = .suspended task) ∧
        routine.Writes fine trace task (turnsLeft own r j i)) ∨
      turnsLeft own r j i = [] ∧ ∃ result, status = .ended (.ok result)
  length : loop.pool.tasks.length = n
  roomy : loop.pool.Roomy
  round : loop.round.filterMap Entry.resumed? =
    (List.range' j (n - j)).filter fun i => decide (r < (own i).length)
  queue : loop.queue.filterMap Entry.resumed? =
    (List.range j).filter fun i => decide (r + 1 < (own i).length)
  timers : loop.timers = []
  failure : loop.failure = none
  stopping : loop.stopping = false
  subjects : ∀ entry ∈ loop.round ++ loop.queue, entry.subject? ≠ none

namespace GoesRound

variable {routine : Coroutine σ τ ρ ε} {fine : σ → Prop} {trace : σ → List α} {before : List α}
  {own : Nat → List (List α)} {n r j : Nat} {loop : Loop τ ρ ε} {s : σ} {clock : Clock σ}

theorem ofTasks {tasks : List τ} (hs : fine s)
    (hwrites : ∀ {i task}, tasks[i]? = some task → routine.Writes fine trace task (own i))
    {limit : Option Int} (hlimit : ∀ n, limit = some n → n ≤ 0 ∨ tasks.length ≤ n) :
    GoesRound routine fine trace (trace s) own tasks.length 0 0
      ({ pool := Pool.ofTasks tasks limit, round := (List.range tasks.length).map .task } :
        Loop τ ρ ε) s := by
  have hsome : ∀ i, i < tasks.length → 0 < (own i).length := by
    intro i hi
    exact List.length_pos_iff.mpr (hwrites (List.getElem?_eq_getElem hi)).ne_nil
  refine ⟨hs, by simp, Nat.zero_le _, fun {i status} hstatus => ?_, by simp [Pool.ofTasks],
    roomy_ofTasks tasks hlimit, ?_, rfl, rfl, rfl, rfl, ?_⟩
  · simp only [Pool.ofTasks, List.getElem?_map, Option.map_eq_some_iff] at hstatus
    obtain ⟨task, htask, rfl⟩ := hstatus
    exact Or.inl ⟨task, Or.inl rfl, hwrites htask⟩
  · rw [List.filterMap_map, Nat.sub_zero, ← List.range_eq_range']
    refine (List.filterMap_some.trans (List.filter_eq_self.mpr fun i hi => ?_).symm)
    simpa using hsome i (List.mem_range.mp hi)
  · intro entry hentry
    rw [List.append_nil] at hentry
    obtain ⟨i, -, rfl⟩ := List.mem_map.mp hentry
    simp [Entry.subject?]

theorem turnsLeft_of_gap {k : Nat} (hdead : ¬ r < (own k).length) (j : Nat) :
    turnsLeft own r j k = [] := by
  rw [turnsLeft, List.drop_eq_nil_iff]
  split_ifs <;> omega

/-- The state of affairs after a turn, given what has become of the task. -/
theorem after (hgoes : GoesRound routine fine trace before own n r j loop s) {entry : Entry}
    {rest : List Entry} (hround : loop.round = entry :: rest) {i : Nat}
    (hresumed : entry.resumed? = some i) {events : List α} {left : List (List α)}
    (hleft : turnsLeft own r j i = events :: left) {pool : Pool τ ρ ε} {status : Status τ ρ ε}
    (htasks : pool.tasks = loop.pool.tasks.set i status) (hroomy : pool.Roomy)
    (hstatus : (∃ task, (status = .fresh task ∨ status = .suspended task) ∧
        routine.Writes fine trace task left) ∨
      left = [] ∧ ∃ result, status = .ended (.ok result))
    {again : Entry} (hsubject : again.subject? = some i)
    (hagain : [again].filterMap Entry.resumed? = if left = [] then [] else [i])
    {state : σ} (hstate : fine state) (htrace : trace state = trace s ++ events) :
    GoesRound routine fine trace before own n r (i + 1)
      { loop with pool, round := rest, queue := loop.queue ++ [again] } state := by
  have hcons := hgoes.round
  rw [hround, List.filterMap_cons_some hresumed] at hcons
  obtain ⟨hji, hin, halive, hgap, hrest⟩ := filter_range'_eq_cons hcons.symm
  have hle := hgoes.le
  have hdead : ∀ k, j ≤ k → k < i → ¬ r < (own k).length := by
    intro k hjk hki
    simpa using hgap k hjk hki
  have hdrop : (own i).drop r = events :: left := by
    rw [← hleft, turnsLeft, if_neg (by omega)]
  have hevents : (own i)[r]? = some events := by
    have hhead := congrArg List.head? hdrop
    rwa [List.head?_drop] at hhead
  have hnext : (own i).drop (r + 1) = left := by
    rw [← List.tail_drop, hdrop, List.tail_cons]
  refine ⟨hstate, ?_, by omega, fun {k other} hother => ?_, ?_, hroomy, ?_, ?_, hgoes.timers,
    hgoes.failure, hgoes.stopping, ?_⟩
  · rw [htrace, hgoes.whole, List.range_succ, List.flatMap_append, List.flatMap_singleton, hevents,
      flatMap_range_gap hji fun k hjk hki => ?_, Option.getD_some]
    · simp only [List.append_assoc]
    rw [List.getElem?_eq_none (Nat.not_lt.mp (hdead k hjk hki))]
    rfl
  · rw [htasks] at hother
    rcases eq_or_ne k i with rfl | hk
    · have hlt : k < loop.pool.tasks.length := by
        rw [hgoes.length]
        omega
      rw [List.getElem?_set_self hlt, Option.some.injEq] at hother
      subst hother
      rw [turnsLeft, if_pos (Nat.lt_succ_self k), hnext]
      exact hstatus
    · rw [List.getElem?_set_ne hk.symm] at hother
      have hold := hgoes.parts hother
      by_cases hmid : j ≤ k ∧ k < i
      · have hnone := hdead k hmid.1 hmid.2
        rw [turnsLeft_of_gap hnone] at hold ⊢
        exact hold
      · have hsame : turnsLeft own r (i + 1) k = turnsLeft own r j k := by
          rw [turnsLeft, turnsLeft]
          congr 1
          split_ifs <;> omega
        rw [hsame]
        exact hold
  · rw [htasks, List.length_set, hgoes.length]
  · rw [← hrest]
    congr 2
    omega
  · have halone : (List.range (i + 1)).filter (fun k => decide (r + 1 < (own k).length)) =
        (List.range j).filter (fun k => decide (r + 1 < (own k).length)) ++
          if left = [] then [] else [i] := by
      rw [List.range_succ, List.filter_append, List.filter_singleton,
        filter_range_gap hji fun k hjk hki => ?_]
      · have hmore : left = [] ↔ ¬ r + 1 < (own i).length := by
          rw [← hnext, List.drop_eq_nil_iff, Nat.not_lt]
        by_cases hlt : r + 1 < (own i).length <;> simp [hlt, hmore]
      · have := hdead k hjk hki
        simp only [decide_eq_false_iff_not]
        omega
    rw [List.filterMap_append, hgoes.queue, hagain, halone]
  · intro other hother
    simp only [List.mem_append, List.mem_singleton] at hother
    rcases hother with hmem | hmem | rfl
    · exact hgoes.subjects other
        (List.mem_append_left _ (hround ▸ List.mem_cons_of_mem _ hmem))
    · exact hgoes.subjects other (List.mem_append_right _ hmem)
    · simp [hsubject]

/-- A turn of the next task that has not ended. -/
theorem turn (hgoes : GoesRound routine fine trace before own n r j loop s) {entry : Entry}
    {rest : List Entry} (hround : loop.round = entry :: rest) {i : Nat}
    (hresumed : entry.resumed? = some i) :
    GoesRound routine fine trace before own n r (i + 1)
      (Loop.resume routine clock i { loop with round := rest } s).1
      (Loop.resume routine clock i { loop with round := rest } s).2 := by
  have hcons := hgoes.round
  rw [hround, List.filterMap_cons_some hresumed] at hcons
  obtain ⟨hji, hin, halive, -, -⟩ := filter_range'_eq_cons hcons.symm
  have hle := hgoes.le
  have hlt : i < loop.pool.tasks.length := by
    rw [hgoes.length]
    omega
  obtain ⟨status, hstatus⟩ : ∃ status, loop.pool.tasks[i]? = some status :=
    ⟨_, List.getElem?_eq_getElem hlt⟩
  have hsome : turnsLeft own r j i ≠ [] := by
    rw [turnsLeft, if_neg (by omega), ne_eq, List.drop_eq_nil_iff]
    simpa using halive
  obtain ⟨task, htask, hwrites⟩ := (hgoes.parts hstatus).resolve_right fun hnone => hsome hnone.1
  obtain ⟨events, left, hleft, hfine, htrace, hends⟩ := hwrites.turn hgoes.state
  obtain ⟨pool', hseated, hroomy⟩ := hgoes.roomy.exists_seated hstatus htask
  obtain ⟨htasks, -⟩ := Pool.tasks_seated hseated
  have hself : pool'.tasks[i]? = some (.suspended task) := by
    rw [htasks, List.getElem?_set_self hlt]
  obtain ⟨result, state, hturn⟩ : ∃ result state, routine.resume task s = (result, state) :=
    ⟨_, _, rfl⟩
  have hresume := Pool.resume_of_seated hseated routine s
  rw [hturn] at hfine htrace hends
  have hwaiters : ∀ status, (pool'.setStatus i status).waiters = [] := fun _ => hroomy.waiters
  rcases hends with ⟨result', rfl, rfl⟩ | ⟨task', rfl, hrest⟩
  · have hloop : Loop.resume routine clock i { loop with round := rest } s =
        ({ loop with
            pool := (pool'.setStatus i (.ended (.ok result'))).release.1
            round := rest
            queue := loop.queue ++ [.report i] }, state) := by
      unfold Loop.resume
      simp only [hresume]
      rw [Pool.run_of_ended hturn rfl, Pool.release_of_no_waiters (hwaiters _)]
      rfl
    rw [hloop]
    refine hgoes.after hround hresumed hleft ?_ (hroomy.setStatus hself rfl).release
      (Or.inr ⟨rfl, result', rfl⟩) rfl rfl hfine htrace
    rw [Pool.release_of_no_waiters (hwaiters _)]
    show pool'.tasks.set i _ = _
    rw [htasks, List.set_set]
  · have hloop : Loop.resume routine clock i { loop with round := rest } s =
        ({ loop with
            pool := pool'.setStatus i (.suspended task')
            round := rest
            queue := loop.queue ++ [.again i] }, state) := by
      unfold Loop.resume
      simp only [hresume]
      rw [Pool.run_of_paused hturn]
      rfl
    rw [hloop]
    refine hgoes.after hround hresumed hleft ?_ (hroomy.setStatus hself rfl)
      (Or.inl ⟨task', Or.inr rfl, hrest⟩) rfl ?_ hfine htrace
    · show pool'.tasks.set i _ = _
      rw [htasks, List.set_set]
    · rw [if_neg hrest.ne_nil]
      rfl

/-- At the end of a round only tasks are left that have ended before it. -/
theorem length_le (hgoes : GoesRound routine fine trace before own n r j loop s)
    (hround : loop.round = []) {i : Nat} (hji : j ≤ i) (hin : i < n) : (own i).length ≤ r := by
  have hnone := hgoes.round
  rw [hround, List.filterMap_nil] at hnone
  have hmem : i ∈ List.range' j (n - j) := List.mem_range'_1.mpr ⟨hji, by omega⟩
  simpa using List.filter_eq_nil_iff.mp hnone.symm i hmem

theorem whole_of_round_nil (hgoes : GoesRound routine fine trace before own n r j loop s)
    (hround : loop.round = []) :
    trace s = before ++ (List.range (r + 1)).flatMap (roundOf own n) := by
  have hwhole : (List.range n).flatMap (fun i => (own i)[r]?.getD []) =
      (List.range j).flatMap fun i => (own i)[r]?.getD [] := by
    refine flatMap_range_gap hgoes.le fun k hjk hkn => ?_
    rw [List.getElem?_eq_none (hgoes.length_le hround hjk hkn)]
    rfl
  rw [hgoes.whole, List.range_succ, List.flatMap_append, List.flatMap_singleton, roundOf, hwhole,
    List.append_assoc]

theorem nextRound (hgoes : GoesRound routine fine trace before own n r j loop s)
    (hround : loop.round = []) {state : σ} (hstate : Unwritten fine trace s state) :
    GoesRound routine fine trace before own n (r + 1) 0
      { loop with round := loop.queue, queue := [] } state := by
  obtain ⟨hfine, htrace⟩ := hstate hgoes.state
  have hdead : ∀ i, j ≤ i → i < n → ¬ r < (own i).length :=
    fun i hji hin => Nat.not_lt.mpr (hgoes.length_le hround hji hin)
  refine ⟨hfine, ?_, Nat.zero_le _, fun {i status} hstatus => ?_, hgoes.length, hgoes.roomy, ?_,
    rfl, hgoes.timers, hgoes.failure, hgoes.stopping, ?_⟩
  · rw [htrace, hgoes.whole_of_round_nil hround]
    exact (List.append_nil _).symm
  · have hi : i < n := hgoes.length ▸ (List.getElem?_eq_some_iff.mp hstatus).1
    have hold := hgoes.parts hstatus
    by_cases hij : i < j
    · have hsame : turnsLeft own (r + 1) 0 i = turnsLeft own r j i := by
        rw [turnsLeft, turnsLeft, if_pos hij, if_neg (Nat.not_lt_zero i)]
      rw [hsame]
      exact hold
    · have hgone := hdead i (Nat.not_lt.mp hij) hi
      rw [turnsLeft_of_gap hgone] at hold
      rw [turnsLeft_of_gap (by omega)]
      exact hold
  · have hsplit : (List.range n).filter (fun i => decide (r + 1 < (own i).length)) =
        (List.range j).filter fun i => decide (r + 1 < (own i).length) := by
      refine filter_range_gap hgoes.le fun k hjk hkn => ?_
      have := hdead k hjk hkn
      simp only [decide_eq_false_iff_not]
      omega
    rw [Nat.sub_zero, ← List.range_eq_range', hsplit, hgoes.queue]
  · intro entry hentry
    rw [List.append_nil] at hentry
    exact hgoes.subjects entry (List.mem_append_right _ hentry)

theorem failureOf (hgoes : GoesRound routine fine trace before own n r j loop s) (i : Nat) :
    loop.pool.failureOf i = none := by
  unfold Pool.failureOf
  split
  · next failure hstatus =>
      rcases hgoes.parts hstatus with ⟨task, hlive | hlive, -⟩ | ⟨-, result, hended⟩
      · cases hlive
      · cases hlive
      · cases hended
  · rfl

theorem step (hgoes : GoesRound routine fine trace before own n r j loop s)
    (helapse : ∀ n s, Unwritten fine trace s (clock.elapse n s)) :
    ∃ r' j', GoesRound routine fine trace before own n r' j' (loop.step routine clock s).1
      (loop.step routine clock s).2 := by
  cases hround : loop.round with
  | nil =>
      obtain ⟨time, due, rest, htimers, heq, -⟩ := Loop.exists_nextRound clock loop s
      have hstep : loop.step routine clock s =
          ({ loop with round := loop.queue, queue := [] }, clock.elapse time s) := by
        rw [hgoes.timers] at htimers
        obtain ⟨rfl, rfl⟩ := List.append_eq_nil_iff.mp htimers.symm
        rw [Loop.step, hround]
        dsimp only
        rw [heq, hgoes.timers]
        simp
      rw [hstep]
      exact ⟨_, _, hgoes.nextRound hround (helapse time s)⟩
  | cons entry rest =>
      have hstep : loop.step routine clock s =
          Loop.take routine clock entry { loop with round := rest } s := by
        rw [Loop.step, hround]
      rw [hstep]
      cases entry with
      | task i => exact ⟨_, _, hgoes.turn hround rfl⟩
      | again i => exact ⟨_, _, hgoes.turn hround rfl⟩
      | report i =>
          have htake : Loop.take routine clock (.report i) { loop with round := rest } s =
              ({ loop with round := rest }, s) := by
            simp only [Loop.take, hgoes.failureOf i]
            split <;> simp_all
          rw [htake]
          refine ⟨r, j, { hgoes with round := ?_, subjects := fun other hother => ?_ }⟩
          · rw [← hgoes.round, hround]
            rfl
          · refine hgoes.subjects other ?_
            rw [hround]
            exact List.mem_cons_of_mem _ hother
      | wake => exact absurd rfl (hgoes.subjects .wake (by simp [hround]))
      | stop => exact absurd rfl (hgoes.subjects .stop (by simp [hround]))

theorem roundOf_eq_nil (hlength : ∀ i, i < n → (own i).length ≤ r) : roundOf own n r = [] := by
  refine List.flatMap_eq_nil_iff.mpr fun i hi => ?_
  rw [List.getElem?_eq_none (hlength i (List.mem_range.mp hi))]
  rfl

/-- At the end the trace is made of rounds. -/
theorem trace_of_isIdle (hgoes : GoesRound routine fine trace before own n r j loop s)
    (hidle : loop.isIdle = true) {rounds : Nat} (hrounds : ∀ i, i < n → (own i).length ≤ rounds) :
    trace s = before ++ (List.range rounds).flatMap (roundOf own n) := by
  simp only [Loop.isIdle, hgoes.stopping, Bool.false_or, Bool.and_eq_true, List.isEmpty_iff]
    at hidle
  obtain ⟨hround, hqueue, -⟩ := hidle
  have hlast : ∀ i, i < n → (own i).length ≤ r + 1 := by
    intro i hin
    rcases Nat.lt_or_ge i j with hij | hji
    · have hnone := hgoes.queue
      rw [hqueue, List.filterMap_nil] at hnone
      simpa using List.filter_eq_nil_iff.mp hnone.symm i (List.mem_range.mpr hij)
    · exact Nat.le_succ_of_le (hgoes.length_le hround hji hin)
  have hgap : ∀ {first : Nat}, (∀ i, i < n → (own i).length ≤ first) →
      (List.range (max (r + 1) rounds)).flatMap (roundOf own n) =
        (List.range (min first (max (r + 1) rounds))).flatMap (roundOf own n) := by
    intro first hfirst
    refine flatMap_range_gap (Nat.min_le_right _ _) fun k hk hless => roundOf_eq_nil fun i hin => ?_
    have := hfirst i hin
    omega
  have hours := hgap hlast
  have htheirs := hgap hrounds
  rw [Nat.min_eq_left (Nat.le_max_left _ _)] at hours
  rw [Nat.min_eq_left (Nat.le_max_right _ _)] at htheirs
  rw [hgoes.whole_of_round_nil hround, ← hours, htheirs]

end GoesRound

/-! ## The trace of a run -/

/-- Running tasks that write without delay to their end: whatever the limit, the part of each task
in the trace is its own; one at a time, they write one after the other; and where there is a seat
for each, they write in rounds. -/
theorem trace_runPool {routine : Coroutine σ τ ρ ε} {clock : Clock σ} {fine : σ → Prop}
    {trace : σ → List α} {own : Nat → List (List α)} {tasks : List τ} {s : σ} (hs : fine s)
    (hwrites : ∀ {i task}, tasks[i]? = some task → routine.Writes fine trace task (own i))
    (helapse : ∀ n s, Unwritten fine trace s (clock.elapse n s))
    (hclock : ∀ n s, clock.now (clock.elapse n s) = clock.now s + n) (limit : Option Int) :
    ∃ results state, runPool routine clock tasks limit s = (.ok results, state) ∧
      results.length = tasks.length ∧
      (∃ written : List (Nat × α), trace state = trace s ++ written.map Prod.snd ∧
        ∀ i, i < tasks.length → part i written = (own i).flatten) ∧
      (limit = some 1 → trace state =
        trace s ++ (List.range tasks.length).flatMap fun i => (own i).flatten) ∧
      ((∀ k, limit = some k → k ≤ 0 ∨ tasks.length ≤ k) →
        ∀ rounds, (∀ i, i < tasks.length → (own i).length ≤ rounds) → trace state =
          trace s ++ (List.range rounds).flatMap (roundOf own tasks.length)) := by
  have hfinite : ∀ task ∈ tasks, routine.Finite fine task := by
    intro task htask
    obtain ⟨i, hi⟩ := List.mem_iff_getElem?.mp htask
    exact (hwrites hi).finite
  have hworld : ∀ {s s' : σ}, Unwritten fine trace s s' → fine s → fine s' :=
    fun hunwritten hfine => (hunwritten hfine).1
  have hstart : (Course.ofTasks tasks limit s : Course σ τ ρ ε).Orderly (seatLimit limit) 0 0 0 :=
    Course.orderly_ofTasks tasks limit s
  have hcourse : (Course.ofTasks tasks limit s).Finite routine fine :=
    Course.finite_ofTasks hfinite limit hs
  obtain ⟨last, course, hrun, hreaches, htracks, hidle⟩ :=
    exists_course_run helapse hclock (hcourse.acc_follows hworld hstart)
      fun next hnext => (hcourse.reaches hworld hstart hnext).turns
  have hbegin : Written routine fine trace (trace s) own (.ofTasks tasks limit s) [] :=
    .ofTasks hs hwrites limit
  obtain ⟨written, hwritten⟩ := hbegin.exists_reaches hstart hreaches
  obtain ⟨_, _, _, horderly⟩ := htracks.orderly
  obtain ⟨results, heq, htasks⟩ :=
    (htracks.runPool_eq hidle hrun).2 (hwritten.failure_eq_none horderly)
  have hlength : course.pool.tasks.length = tasks.length := by
    rw [Course.length_of_reaches hstart hreaches]
    simp [Course.ofTasks, Pool.ofTasks]
  have hended : ∀ i, i < tasks.length →
      ∃ ending : Except ε ρ, course.pool.tasks[i]? = some (.ended ending) := by
    intro i hi
    have hlt : i < results.length := by
      rw [← hlength, htasks, List.length_map] at hi
      exact hi
    exact ⟨.ok results[i], by simp [htasks, hlt]⟩
  refine ⟨results, course.state, heq, ?_, ?_, ?_, ?_⟩
  · rw [← hlength, htasks, List.length_map]
  · refine ⟨written, hwritten.whole, fun i hi => ?_⟩
    obtain ⟨ending, hi⟩ := hended i hi
    exact hwritten.part_of_ended hi
  · rintro rfl
    have hfirst : InOrder (Course.ofTasks tasks (some 1) s : Course σ τ ρ ε) 0
        ([] : List (Nat × α)) :=
      ⟨.nil, fun _ hnone => (List.not_mem_nil hnone).elim, fun _ hj => absurd hj (Nat.not_lt_zero _)⟩
    obtain ⟨begun, handed, asked, written', horderly', hwritten', hinOrder⟩ :=
      hbegin.exists_inOrder hfirst hstart hreaches
    have hless : ∀ event ∈ written', event.1 < tasks.length := by
      intro event hevent
      have := hinOrder.less event hevent
      have := horderly'.lined.begun_le
      have := horderly'.lined.handed_le
      have := horderly'.lined.asked_le
      omega
    rw [hwritten'.whole, map_snd_of_sorted hinOrder.sorted hless]
    congr 1
    refine List.flatMap_congr fun i hi => ?_
    obtain ⟨ending, hi⟩ := hended i (List.mem_range.mp hi)
    exact hwritten'.part_of_ended hi
  · intro hlimit rounds hrounds
    obtain ⟨state, hstate, hfirst⟩ := Loop.exists_run_ofTasks routine clock tasks limit s
    have hunwritten : fine state ∧ trace state = trace s := by
      rcases hstate with rfl | rfl
      · exact ⟨hs, rfl⟩
      · exact helapse 0 s hs
    have hgoes := GoesRound.ofTasks hunwritten.1 hwrites hlimit
    obtain ⟨⟨r, j, hlast⟩, -⟩ := repeatUntil_keeps
      (P := fun now => ∃ r j, GoesRound routine fine trace (trace state) own tasks.length r j
        now.1 now.2)
      (fun now _ hnow => by
        obtain ⟨r, j, hnow⟩ := hnow
        exact hnow.step helapse) ⟨0, 0, hgoes⟩ (hfirst.symm.trans hrun)
    rw [← hunwritten.2]
    exact hlast.trace_of_isIdle hidle hrounds

end BuildRunner.Schedule
