import BuildRunner.Proofs.Execution.Preparing
import BuildRunner.Proofs.Execution.Timeless
import BuildRunner.Proofs.Machine.Ticking

/-!
# Waiting and polling

A blocking wait lets the programs go on until the one it waits for has ended; a poll asks at once.
What is made of the answer is the same.  So a poll that finds the program ended comes to what the
blocking wait comes to, if the current directory is the one that the run kept.
-/

namespace BuildRunner

variable {κ : Type}

/-- There is an open handle for a program of the machine. -/
structure Machine.Watches (m : Machine κ) (id index : Nat) (handle : Handle) : Prop where
  found : m.handles[id]? = some handle
  source : handle.source = .program index
  isOpen : handle.closed = false

theorem Machine.Watches.of_handles {m m' : Machine κ} {id index : Nat} {handle : Handle}
    (hwatches : m.Watches id index handle) (hsame : m'.handles = m.handles) :
    m'.Watches id index handle := ⟨hsame ▸ hwatches.found, hwatches.source, hwatches.isOpen⟩

namespace Act

/-- What a wait makes of the answer of a program; a failure counts as no usable status. -/
def settle (id : Nat) (handle : Handle) (answer : Answer) : Act κ WaitResult :=
  tryCatch (takeAnswer id handle answer) fun failure => do
    remarkWaitFailed (← handleAt id).program failure.message
    pure .unusable

theorem timeless_settle (id : Nat) (handle : Handle) (answer : Answer) :
    Timeless (settle id handle answer : Act κ WaitResult) := by
  refine timeless_tryCatch (timeless_takeAnswer _ _ _) fun failure => ?_
  exact timeless_bind (timeless_handleAt id) fun handle =>
    timeless_bind (timeless_remark _) fun _ => timeless_pure _

theorem eq_unusable_of_ok {action : Act κ Unit} {m m' : Machine κ} {result : WaitResult}
    (hrun : (do
      action
      pure WaitResult.unusable : Act κ WaitResult).run m = (.ok result, m')) :
    result = .unusable := by
  obtain ⟨_, _, -, hpure⟩ := run_bind_eq_ok hrun
  cases hpure
  rfl

section

variable {m : Machine κ} {id index : Nat} {handle : Handle} (hwatches : m.Watches id index handle)

include hwatches

/-- Taking an answer of a program leaves its handle as it is. -/
theorem run_takeAnswer (answer : Answer) :
    (takeAnswer id handle answer : Act κ WaitResult).run m =
      (match answer with
        | .exited code => pure (.ofCode code)
        | .running => pure ⟨.pending, none⟩
        | .refused text => do
          remarkWaitFailed handle.program text
          return .unusable
        | .broken text => throw (.waitBroken text) : Act κ WaitResult).run m := by
  have hconsume : handle.consume answer = (handle, answer) := by
    rw [Handle.consume, hwatches.source]
  obtain ⟨hlt, hget⟩ := List.getElem?_eq_some_iff.mp hwatches.found
  have hset : { m with handles := m.handles.set id handle } = m := by
    rw [← hget, List.set_getElem_self]
  unfold takeAnswer setHandle
  rw [hconsume]
  dsimp only
  rw [run_bind, run_modify]
  dsimp only
  cases answer with
  | _ => rw [hset]

theorem run_settle_running :
    (settle id handle .running : Act κ WaitResult).run m = (.ok ⟨.pending, none⟩, m) := by
  rw [settle, run_tryCatch, run_takeAnswer hwatches]
  rfl

theorem run_settle_exited (code : Int) :
    (settle id handle (.exited code) : Act κ WaitResult).run m = (.ok (.ofCode code), m) := by
  rw [settle, run_tryCatch, run_takeAnswer hwatches]
  rfl

/-- A program that has not exited gives no usable status. -/
theorem eq_unusable_of_settle {answer : Answer} (hrunning : answer ≠ .running)
    (hexited : ∀ code, answer ≠ .exited code) {m' : Machine κ} {result : WaitResult}
    (hsettle : (settle id handle answer : Act κ WaitResult).run m = (.ok result, m')) :
    result = .unusable := by
  have hhandler : ∀ {failure : Failure} {m₁ : Machine κ},
      (do
        remarkWaitFailed (← handleAt id).program failure.message
        pure WaitResult.unusable : Act κ WaitResult).run m₁ = (.ok result, m') →
      result = .unusable := by
    intro failure m₁ hrun
    obtain ⟨_, _, -, hrest⟩ := run_bind_eq_ok hrun
    exact eq_unusable_of_ok hrest
  rw [settle, run_tryCatch, run_takeAnswer hwatches] at hsettle
  cases answer with
  | running => exact absurd rfl hrunning
  | exited code => exact absurd rfl (hexited code)
  | broken text => exact hhandler hsettle
  | refused text =>
      dsimp only at hsettle
      rcases htold : (do
        remarkWaitFailed handle.program text
        return .unusable : Act κ WaitResult).run m with ⟨failure | told, m₁⟩
      · rw [htold] at hsettle
        exact hhandler hsettle
      · rw [htold] at hsettle
        cases hsettle
        exact eq_unusable_of_ok htold

variable [Program κ]

theorem run_guardedWait (patience : Patience) {m' : Machine κ}
    (hwait : (waitOnMachine index patience).run m = (.ok (), m')) :
    (guardedWait id patience : Act κ WaitResult).run m =
      (settle id handle (m'.answerOf index)).run m' := by
  have hrun : (wait id patience : Act κ WaitResult).run m =
      (takeAnswer id handle (m'.answerOf index)).run m' := by
    unfold wait
    rw [run_bind, run_handleAt, hwatches.found]
    dsimp only [Option.getD_some]
    rw [hwatches.isOpen, if_neg (by decide), hwatches.source]
    dsimp only
    rw [run_bind, hwait]
    rfl
  unfold guardedWait settle
  rw [run_tryCatch, run_tryCatch, hrun]

theorem run_guardedWait_poll :
    (guardedWait id .poll : Act κ WaitResult).run m =
      (settle id handle (m.answerOf index)).run m :=
  run_guardedWait hwatches .poll rfl

theorem run_guardedWait_forever {ended : Machine κ} (hend : m.awaitEnd index = some ended) :
    (guardedWait id .forever : Act κ WaitResult).run m =
      (settle id handle (ended.answerOf index)).run ended := by
  refine run_guardedWait hwatches .forever ?_
  unfold waitOnMachine
  rw [run_modify, hend]
  rfl

end

/-! ## The end of a wait -/

/-- What a run makes of the answer of its program: the handle is closed, the output is read, and the
scratch files are removed. -/
def conclude (call : Call) (id : Nat) (handle : Handle) (answer : Answer) : Act κ JobResult :=
  ensuring
    (do
      let result ← ensuring (settle id handle answer) (close id)
      collect call result.exitCode)
    (cleanUp call)

theorem timeless_conclude (call : Call) (id : Nat) (handle : Handle) (answer : Answer) :
    Timeless (conclude call id handle answer : Act κ JobResult) := by
  refine timeless_ensuring ?_ (timeless_cleanUp call)
  exact timeless_bind (timeless_ensuring (timeless_settle _ _ _) (timeless_close id)) fun _ =>
    timeless_collect _ _

/-- Where the current directory is the one that was kept, there is nothing to put back. -/
theorem run_endWait_of_here {waiting : Waiting} {m : Machine κ}
    (hhere : m.disk.currentPath = .ok waiting.saved) :
    (endWait waiting).run m = (close waiting.handle).run m := by
  have hback : (putBack waiting.saved : Act κ Unit).run m = (.ok (), m) := by
    unfold putBack restore
    rw [run_tryCatch, run_bind, run_currentPath, hhere]
    dsimp only
    rw [if_neg (not_not.mpr rfl)]
    rfl
  unfold endWait
  rw [run_ensuring, resultOf, stateAfter, hback]
  dsimp only
  rcases (close waiting.handle : Act κ Unit).run m with ⟨failure | _, m'⟩
  · rfl
  · rfl

theorem run_conclude {call : Call} {id : Nat} {handle : Handle} {answer : Answer}
    {settled : Except Failure WaitResult} {closed : Except Failure Unit} {m m' m'' : Machine κ}
    (hsettle : (settle id handle answer : Act κ WaitResult).run m = (settled, m'))
    (hclose : (close id : Act κ Unit).run m' = (closed, m'')) :
    (conclude call id handle answer).run m =
      match closed.bind fun _ => settled with
      | .ok result => (ensuring (collect call result.exitCode) (cleanUp call)).run m''
      | .error failure =>
        (.error failure, { m'' with disk := m''.disk.without call.capture.paths }) := by
  have hsettled : (ensuring (settle id handle answer) (close id) : Act κ WaitResult).run m =
      (closed.bind fun _ => settled, m'') := by
    rw [run_ensuring, stateAfter_of_run hsettle, resultOf_of_run hsettle, hclose]
    cases closed with
    | _ => rfl
  unfold conclude
  rw [run_ensuring, resultOf, stateAfter, run_bind, hsettled]
  cases closed.bind fun _ => settled with
  | error failure =>
      dsimp only
      rw [run_cleanUp]
  | ok result =>
      dsimp only
      rw [run_ensuring]
      rfl

theorem outcome_ne_pending {answer : Answer} {m m' : Machine κ} {id index : Nat} {handle : Handle}
    {result : WaitResult} (hwatches : m.Watches id index handle) (hended : answer ≠ .running)
    (hsettle : (settle id handle answer : Act κ WaitResult).run m = (.ok result, m')) :
    result.outcome ≠ .pending := by
  by_cases hexited : ∃ code, answer = .exited code
  · obtain ⟨code, rfl⟩ := hexited
    rw [run_settle_exited hwatches] at hsettle
    cases hsettle
    unfold WaitResult.ofCode
    split <;> simp
  · rw [eq_unusable_of_settle hwatches hended (fun code hcode => hexited ⟨code, hcode⟩) hsettle]
    simp [WaitResult.unusable]

variable [Program κ] {m : Machine κ} {waiting : Waiting} {index : Nat} {handle : Handle}

/-- A poll of a program that runs suspends the run and changes nothing. -/
theorem run_poll_of_running (hwatches : m.Watches waiting.handle index handle)
    (hrunning : m.answerOf index = .running) {settings : Settings}
    (hsettings : Settings.read m.environment = .ok settings) :
    (poll waiting).run m = (.ok (.suspended settings.pollDelay waiting), m) := by
  have hasked : (guardedWait waiting.handle .poll : Act κ WaitResult).run m =
      (.ok ⟨.pending, none⟩, m) := by
    rw [run_guardedWait_poll hwatches, hrunning, run_settle_running hwatches]
  unfold poll onFailure suspension
  rw [run_bind, run_tryCatch, run_bind, hasked]
  dsimp only
  rw [if_pos rfl, run_bind, run_bind, run_settings, hsettings]
  rfl

/-- A poll of a program that has ended concludes the run. -/
theorem run_poll_of_ended (hwatches : m.Watches waiting.handle index handle)
    (hended : m.answerOf index ≠ .running) (hhere : m.disk.currentPath = .ok waiting.saved) :
    (poll waiting).run m =
      (Polled.finished <$>
        conclude waiting.call waiting.handle handle (m.answerOf index)).run m := by
  have hasked := run_guardedWait_poll hwatches
  obtain ⟨settled, m', hsettle⟩ : ∃ settled m',
      (settle waiting.handle handle (m.answerOf index) : Act κ WaitResult).run m =
        (settled, m') := ⟨_, _, rfl⟩
  rw [hsettle] at hasked
  have hquiet : Quiet m m' := (quiet_guardedWait_poll waiting.handle).of_run hasked
  have hback : (endWait waiting).run m' = (close waiting.handle).run m' :=
    run_endWait_of_here (hquiet.disk ▸ hhere)
  obtain ⟨closed, m'', hclose⟩ : ∃ closed m'',
      (close waiting.handle : Act κ Unit).run m' = (closed, m'') := ⟨_, _, rfl⟩
  rw [hclose] at hback
  unfold poll onFailure
  rw [run_map, run_conclude hsettle hclose, run_bind, run_tryCatch, run_bind, hasked]
  cases settled with
  | error failure =>
      unfold abandon
      dsimp only
      rw [run_bind, run_ensuring, resultOf_of_run hback, stateAfter_of_run hback, run_cleanUp]
      cases closed with
      | _ => rfl
  | ok result =>
      dsimp only
      rw [if_neg (outcome_ne_pending hwatches hended hsettle), run_pure]
      dsimp only
      rw [run_bind, run_ensuring, resultOf, stateAfter, run_bind, hback]
      cases closed with
      | error failure =>
          dsimp only
          rw [run_cleanUp]
          rfl
      | ok _ =>
          dsimp only [Except.bind]
          rw [run_ensuring, resultOf, stateAfter]
          rfl

/-- A poll of a program that has ended is the last one. -/
theorem not_suspended_of_ended (hwatches : m.Watches waiting.handle index handle)
    (hended : m.answerOf index ≠ .running) (delay : Option Nat) (rest : Waiting) :
    resultOf (poll waiting) m ≠ .ok (.suspended delay rest) := by
  intro hpolled
  obtain ⟨m', hrun⟩ : ∃ m', (poll waiting).run m = (.ok (.suspended delay rest), m') :=
    ⟨_, Prod.ext hpolled rfl⟩
  obtain ⟨polled, m₁, hasked, hrest⟩ := run_bind_eq_ok hrun
  cases polled with
  | inr code =>
      obtain ⟨_, _, -, hfinished⟩ := run_bind_eq_ok hrest
      cases hfinished
  | inl delay =>
      unfold onFailure at hasked
      rw [run_tryCatch, run_bind, run_guardedWait_poll hwatches] at hasked
      rcases hsettle : (settle waiting.handle handle (m.answerOf index) : Act κ WaitResult).run m with
        ⟨failure | result, m₂⟩
      · rw [hsettle] at hasked
        dsimp only at hasked
        obtain ⟨_, _, -, hthrow⟩ := run_bind_eq_ok hasked
        cases hthrow
      · rw [hsettle] at hasked
        dsimp only at hasked
        rw [if_neg (outcome_ne_pending hwatches hended hsettle)] at hasked
        cases hasked

end Act

end BuildRunner
