import BuildRunner.Schedule.Loop
import Mathlib.Logic.Function.Basic
import Mathlib.Logic.Relation

/-!
# Sessions

A session is what tasks do to the state that they share when nothing is assumed about who goes next:
any task may have the next turn, any suspended one may be cancelled, and between two turns the world
may change the state by itself.  Pools and loops only choose among these steps, so that what holds
in all sessions holds however they choose.
-/

namespace BuildRunner.Schedule

variable {σ τ ρ ε : Type}

/-- How far a task has come. -/
inductive Stage (τ : Type)
  | idle (task : τ)
  | suspended (rest : τ)
  | over

/-- The stage that a turn leads to. -/
def Stage.after : Except ε (Progress τ ρ) → Stage τ
  | .ok (.paused _ rest) => .suspended rest
  | .ok (.ended _) => .over
  | .error _ => .over

def Status.stage : Status τ ρ ε → Stage τ
  | .fresh task => .idle task
  | .blocked task => .idle task
  | .granted task => .idle task
  | .suspended rest => .suspended rest
  | .ended _ => .over

/-- A state with the stages of the tasks that share it. -/
structure Session (σ τ : Type) where
  tasks : Nat → Option (Stage τ)
  state : σ

namespace Session

/-- The tasks have not begun. -/
def ofTasks (tasks : List τ) (state : σ) : Session σ τ where
  tasks i := tasks[i]?.map .idle
  state := state

/-- The session after the turn of a task. -/
def afterTurn (routine : Coroutine σ τ ρ ε) (session : Session σ τ) (index : Nat) (task : τ) :
    Session σ τ where
  tasks := Function.update session.tasks index
    (some (Stage.after (routine.resume task session.state).1))
  state := (routine.resume task session.state).2

/-- The session after a task has been cancelled. -/
def afterCancel (routine : Coroutine σ τ ρ ε) (session : Session σ τ) (index : Nat) (task : τ) :
    Session σ τ where
  tasks := Function.update session.tasks index (some .over)
  state := routine.cancel task session.state

theorem tasks_afterCancel_self (routine : Coroutine σ τ ρ ε) (session : Session σ τ) (index : Nat)
    (task : τ) : (session.afterCancel routine index task).tasks index = some .over :=
  Function.update_self _ _ _

theorem tasks_afterCancel_of_ne (routine : Coroutine σ τ ρ ε) (session : Session σ τ)
    {index i : Nat} {task : τ} (hi : i ≠ index) :
    (session.afterCancel routine index task).tasks i = session.tasks i :=
  Function.update_of_ne hi _ _

theorem tasks_afterTurn_self (routine : Coroutine σ τ ρ ε) (session : Session σ τ) (index : Nat)
    (task : τ) : (session.afterTurn routine index task).tasks index =
      some (Stage.after (routine.resume task session.state).1) :=
  Function.update_self _ _ _

theorem tasks_afterTurn_of_ne (routine : Coroutine σ τ ρ ε) (session : Session σ τ)
    {index i : Nat} {task : τ} (hi : i ≠ index) :
    (session.afterTurn routine index task).tasks i = session.tasks i :=
  Function.update_of_ne hi _ _

/-- One step of a session. -/
inductive Step (routine : Coroutine σ τ ρ ε) (world : σ → σ → Prop) :
    Session σ τ → Session σ τ → Prop
  | begin {session : Session σ τ} {index : Nat} {task : τ}
      (htask : session.tasks index = some (.idle task)) :
      Step routine world session (session.afterTurn routine index task)
  | resume {session : Session σ τ} {index : Nat} {task : τ}
      (htask : session.tasks index = some (.suspended task)) :
      Step routine world session (session.afterTurn routine index task)
  | cancel {session : Session σ τ} {index : Nat} {task : τ}
      (htask : session.tasks index = some (.suspended task)) :
      Step routine world session (session.afterCancel routine index task)
  | world {session : Session σ τ} {state : σ} (hworld : world session.state state) :
      Step routine world session { session with state }

/-- Any number of steps. -/
abbrev Reaches (routine : Coroutine σ τ ρ ε) (world : σ → σ → Prop) :
    Session σ τ → Session σ τ → Prop := Relation.ReflTransGen (Step routine world)

/-- No task is left in suspense. -/
def Settled (session : Session σ τ) : Prop :=
  ∀ index rest, session.tasks index ≠ some (.suspended rest)

end Session

/-! ## Pools -/

namespace Pool

variable {routine : Coroutine σ τ ρ ε} {world : σ → σ → Prop}

/-- A pool and its state as a session. -/
def session (pool : Pool τ ρ ε) (state : σ) : Session σ τ where
  tasks i := pool.tasks[i]?.map Status.stage
  state := state

theorem session_ofTasks (tasks : List τ) (limit : Option Int) (state : σ) :
    (Pool.ofTasks tasks limit : Pool τ ρ ε).session state = .ofTasks tasks state := by
  unfold session Session.ofTasks Pool.ofTasks
  congr 1
  funext i
  rw [List.getElem?_map, Option.map_map]
  rfl

theorem session_setStatus (pool : Pool τ ρ ε) {index : Nat} {old : Status τ ρ ε}
    (hold : pool.tasks[index]? = some old) (status : Status τ ρ ε) (state : σ) :
    (pool.setStatus index status).session state =
      ⟨Function.update (pool.session state).tasks index (some status.stage), state⟩ := by
  unfold session setStatus
  congr 1
  funext i
  have hlt := (List.getElem?_eq_some_iff.mp hold).1
  by_cases hi : i = index
  · subst hi
    rw [Function.update_self, List.getElem?_set_self hlt]
    rfl
  · rw [Function.update_of_ne hi, List.getElem?_set_ne (Ne.symm hi)]

/-- A status of the same stage makes no difference to the session. -/
theorem session_setStatus_of_stage (pool : Pool τ ρ ε) {index : Nat} {old : Status τ ρ ε}
    (hold : pool.tasks[index]? = some old) (status : Status τ ρ ε)
    (hstage : status.stage = old.stage) (state : σ) :
    (pool.setStatus index status).session state = pool.session state := by
  rw [session_setStatus pool hold, hstage]
  have htask : (pool.session state).tasks index = some old.stage :=
    congrArg (Option.map Status.stage) hold
  rw [← htask, Function.update_eq_self]
  rfl

/-- Handing on a slot does not bring a task any further. -/
theorem session_release (pool : Pool τ ρ ε) (state : σ) :
    pool.release.1.session state = pool.session state := by
  unfold release
  split
  · rfl
  · rfl
  · next next rest _ _ =>
      dsimp only
      split
      · next task hblocked =>
          show (Pool.setStatus { pool with waiters := rest } next (.granted task)).session state = _
          exact session_setStatus_of_stage { pool with waiters := rest } hblocked (.granted task)
            rfl state
      · rfl

/-- The turn that a pool gives to a task is a turn of the session. -/
theorem session_run (pool : Pool τ ρ ε) {index : Nat} {task : τ} {old : Status τ ρ ε}
    (hold : pool.tasks[index]? = some old) (s : σ) :
    (pool.run routine index task s).1.session (pool.run routine index task s).2.1 =
      (pool.session s).afterTurn routine index task := by
  unfold run Session.afterTurn
  have hstate : (pool.session s).state = s := rfl
  rw [hstate]
  rcases routine.resume task s with ⟨failure | (result | ⟨delay, rest⟩), s'⟩
  · dsimp only
    rw [session_release, session_setStatus pool hold]
    rfl
  · dsimp only
    rw [session_release, session_setStatus pool hold]
    rfl
  · exact session_setStatus pool hold (.suspended rest) s'

/-- Resuming a task of a pool is at most one step of the session. -/
theorem reaches_resume (pool : Pool τ ρ ε) (index : Nat) (s : σ) :
    Session.Reaches routine world (pool.session s)
      ((pool.resume routine index s).1.session (pool.resume routine index s).2.1) := by
  have hturn : ∀ {pool : Pool τ ρ ε} {task : τ} {old : Status τ ρ ε},
      pool.tasks[index]? = some old → old.stage = .idle task ∨ old.stage = .suspended task →
        Session.Reaches routine world (pool.session s)
          ((pool.run routine index task s).1.session (pool.run routine index task s).2.1) := by
    intro pool task old hold hstage
    rw [session_run pool hold]
    have htask : (pool.session s).tasks index = some old.stage := congrArg (Option.map _) hold
    rcases hstage with hidle | hsuspended
    · exact .single (.begin (hidle ▸ htask))
    · exact .single (.resume (hsuspended ▸ htask))
  unfold resume
  split
  · next task hfresh =>
      split
      · exact hturn hfresh (Or.inl rfl)
      · next n _ _ => exact @hturn { pool with free := some n } task _ hfresh (Or.inl rfl)
      · dsimp only
        show Session.Reaches routine world (pool.session s)
          ((pool.setStatus index (.blocked task)).session s)
        rw [session_setStatus_of_stage pool hfresh (.blocked task) rfl]
  · next task hgranted => exact hturn hgranted (Or.inl rfl)
  · next task hsuspended => exact hturn hsuspended (Or.inr rfl)
  · exact .refl

/-- Cancelling what is left is a session that ends with nothing in suspense. -/
theorem reaches_cancelAll (pool : Pool τ ρ ε) (s : σ) :
    ∃ session, Session.Reaches routine world (pool.session s) session ∧ session.Settled ∧
      session.state = pool.cancelAll routine s := by
  -- the tasks in front have been seen to, those behind are as the pool has them
  have hrest : ∀ (left : List (Status τ ρ ε)) (done : Nat) (session : Session σ τ),
      (∀ i rest, i < done → session.tasks i ≠ some (.suspended rest)) →
      (∀ i, session.tasks (done + i) = left[i]?.map Status.stage) →
        ∃ last, Session.Reaches routine world session last ∧ last.Settled ∧
          last.state = left.foldl (cancelOne routine) session.state := by
    intro left
    induction left with
    | nil =>
        intro done session hdone hleft
        refine ⟨session, .refl, fun i rest => ?_, rfl⟩
        by_cases hi : i < done
        · exact hdone i rest hi
        · have htask := hleft (i - done)
          rw [Nat.add_sub_cancel' (Nat.not_lt.mp hi)] at htask
          simp [htask]
    | cons status left ih =>
        intro done session hdone hleft
        have hhead : session.tasks done = some status.stage := hleft 0
        have htail : ∀ i, session.tasks (done + 1 + i) = left[i]?.map Status.stage := by
          intro i
          rw [Nat.add_assoc, Nat.add_comm 1 i]
          exact hleft (i + 1)
        -- a task that is not suspended is left as it is
        have hskip : (∀ rest, status.stage ≠ .suspended rest) →
            cancelOne routine session.state status = session.state →
            ∃ last, Session.Reaches routine world session last ∧ last.Settled ∧
              last.state = (status :: left).foldl (cancelOne routine) session.state := by
          intro hstage hstate
          rw [List.foldl_cons, hstate]
          refine ih (done + 1) session ?_ htail
          intro i rest hi
          rcases Nat.lt_succ_iff_lt_or_eq.mp hi with hlt | rfl
          · exact hdone i rest hlt
          · rw [hhead]
            exact fun hsame => hstage rest (Option.some.inj hsame)
        cases status with
        | fresh task => exact hskip (fun _ => by simp [Status.stage]) rfl
        | blocked task => exact hskip (fun _ => by simp [Status.stage]) rfl
        | granted task => exact hskip (fun _ => by simp [Status.stage]) rfl
        | ended result => exact hskip (fun _ => by simp [Status.stage]) rfl
        | suspended rest =>
            have hcancel : Session.Step routine world session
                (session.afterCancel routine done rest) := .cancel hhead
            have hdone' : ∀ i other, i < done + 1 →
                (session.afterCancel routine done rest).tasks i ≠ some (.suspended other) := by
              intro i other hi
              rcases Nat.lt_succ_iff_lt_or_eq.mp hi with hlt | rfl
              · rw [Session.tasks_afterCancel_of_ne _ _ (Nat.ne_of_lt hlt)]
                exact hdone i other hlt
              · rw [Session.tasks_afterCancel_self]
                simp
            have htail' : ∀ i, (session.afterCancel routine done rest).tasks (done + 1 + i) =
                left[i]?.map Status.stage := by
              intro i
              rw [Session.tasks_afterCancel_of_ne _ _ (by omega)]
              exact htail i
            obtain ⟨last, hreaches, hsettled, hstate⟩ := ih (done + 1) _ hdone' htail'
            exact ⟨last, hreaches.head hcancel, hsettled, hstate⟩
  exact hrest pool.tasks 0 (pool.session s) (by simp) (by simp [session])

end Pool

/-! ## Loops -/

namespace Loop

variable {routine : Coroutine σ τ ρ ε} {world : σ → σ → Prop} {clock : Clock σ}

theorem pool_note (now : Nat) (loop : Loop τ ρ ε) (wake : Wake) :
    (note now loop wake).pool = loop.pool := by
  unfold note
  split <;> rfl

theorem pool_foldl_note (now : Nat) (wakes : List Wake) (loop : Loop τ ρ ε) :
    (wakes.foldl (note now) loop).pool = loop.pool := by
  induction wakes generalizing loop with
  | nil => rfl
  | cons wake wakes ih =>
      rw [List.foldl_cons, ih, pool_note]

theorem reaches_step (helapse : ∀ n s, world s (clock.elapse n s)) (loop : Loop τ ρ ε) (s : σ) :
    Session.Reaches routine world (loop.pool.session s)
      ((loop.step routine clock s).1.pool.session (loop.step routine clock s).2) := by
  unfold step
  split
  · next entry rest _ =>
      have hresume : ∀ index, Session.Reaches routine world (loop.pool.session s)
          ((Loop.resume routine clock index { loop with round := rest } s).1.pool.session
            (Loop.resume routine clock index { loop with round := rest } s).2) := by
        intro index
        unfold resume
        dsimp only
        rw [pool_foldl_note]
        exact loop.pool.reaches_resume index s
      unfold take
      split
      · exact hresume _
      · exact hresume _
      · split
        · exact .refl
        · exact .refl
      · exact .refl
      · exact .refl
  · exact .single (.world (helapse _ s))

theorem reaches_run (helapse : ∀ n s, world s (clock.elapse n s)) {loop last : Loop τ ρ ε}
    {s s' : σ} (hrun : run routine clock loop s = some (last, s')) :
    Session.Reaches routine world (loop.pool.session s) (last.pool.session s') :=
  (repeatUntil_keeps
    (P := fun now => Session.Reaches routine world (loop.pool.session s) (now.1.pool.session now.2))
    (fun now _ hnow => hnow.trans (reaches_step helapse now.1 now.2)) .refl hrun).1

end Loop

/-- Whatever the limit, running tasks to their end is a session that leaves none in suspense. -/
theorem reaches_runPool {routine : Coroutine σ τ ρ ε} {world : σ → σ → Prop} {clock : Clock σ}
    (helapse : ∀ n s, world s (clock.elapse n s)) (tasks : List τ) (limit : Option Int) (s : σ) :
    ∃ session, Session.Reaches routine world (.ofTasks tasks s) session ∧ session.Settled ∧
      session.state = (runPool routine clock tasks limit s).2 := by
  unfold runPool
  cases hrun : Loop.run routine clock (Loop.ofPool (Pool.ofTasks tasks limit : Pool τ ρ ε)) s with
  | none =>
      refine ⟨.ofTasks tasks s, .refl, fun index rest htask => ?_, rfl⟩
      obtain ⟨task, -, hidle⟩ := Option.map_eq_some_iff.mp htask
      cases hidle
  | some outcome =>
      obtain ⟨loop, s'⟩ := outcome
      have hreaches : Session.Reaches routine world (.ofTasks tasks s) (loop.pool.session s') := by
        have hstart : (Pool.ofTasks tasks limit : Pool τ ρ ε).session s = .ofTasks tasks s :=
          Pool.session_ofTasks tasks limit s
        rw [← hstart]
        exact Loop.reaches_run helapse hrun
      obtain ⟨last, hcancel, hsettled, hstate⟩ := loop.pool.reaches_cancelAll s'
      refine ⟨last, hreaches.trans hcancel, hsettled, hstate.trans ?_⟩
      dsimp only
      split
      · rfl
      · split
        · rfl
        · rfl

end BuildRunner.Schedule
