import BuildRunner.Proofs.Execution.Blocking
import BuildRunner.Proofs.Execution.Verdicts

/-!
# Handles are used up once

A handle over a fixed list of answers gives them one after the other, an answer for each wait, until
it is closed.  The first close releases the open files that it owns; afterwards every close and
every wait is refused and nothing changes.  A guarded wait has the result of a wait, and where a
wait fails it has no usable status.

A wait that fails is remarked on.  The remark escapes the name of the program and the text of the
failure apart from each other, so that a closing tag which begins in the one and ends in the other
is still a tag.  Such a remark cannot be shown, and then the guarded wait fails as well.
-/

namespace BuildRunner

open Console

variable {κ : Type}

/-- What may be asked of a handle. -/
inductive HandleCall
  | wait (patience : Patience)
  | guardedWait (patience : Patience)
  | close
deriving DecidableEq, Repr

/-- What a wait makes of an answer. -/
def Answer.verdict : Answer → Except Failure WaitResult
  | .exited code => .ok ⟨if 0 ≤ code then .done else .failed, some code⟩
  | .running => .ok ⟨.pending, none⟩
  | .refused _ => .ok ⟨.failed, none⟩
  | .broken text => .error (.waitBroken text)

theorem WaitResult.ofCode_eq (code : Int) :
    ofCode code = ⟨if 0 ≤ code then .done else .failed, some code⟩ := by
  unfold ofCode
  by_cases hcode : 0 ≤ code
  · rw [if_neg (by omega), if_pos hcode]
  · rw [if_pos (by omega), if_neg hcode]

/-- The remark that a wait has failed can be shown. -/
def CanTell (program text : String) : Prop :=
  ∃ line, plain ("[dim]buildos: " ++
    ("wait failed for " ++ escape program ++ ": " ++ escape text) ++ "[/dim]") = .ok line

theorem canTell_of_not_closes (program : String) {text : String}
    (htext : closes text.toList = false) : CanTell program text :=
  Act.exists_plain_remark_on (by decide) (by decide) program htext

namespace HandleCall

variable [Program κ]

/-- A call on the handle of an index.  A close has no result. -/
def act (id : Nat) : HandleCall → Act κ (Option WaitResult)
  | .wait patience => some <$> Act.wait id patience
  | .guardedWait patience => some <$> Act.guardedWait id patience
  | .close => do
    Act.close id
    return none

end HandleCall

/-- The machine after calls on the handle of an index, whatever each of them comes to. -/
def Machine.afterCalls [Program κ] (id : Nat) (calls : List HandleCall) (m : Machine κ) :
    Machine κ :=
  calls.foldl (fun m call => stateAfter (call.act id) m) m

/-- The waits that an open handle answers: those before the first close. -/
def answeredWaits (calls : List HandleCall) : Nat := (calls.takeWhile (· ≠ .close)).length

theorem Handle.consume_script (now : Answer) (program : String) (script : List Answer)
    (owned : List Nat) :
    consume now { program, source := .script script, owned } =
      ({ program, source := .script (script.drop 1), owned }, script.head?.getD .running) := by
  cases script with
  | nil => rfl
  | cons answer rest => rfl

/-! ## Calls on a handle -/

namespace Act

/-- The remark on a failed wait writes no more than a line, and fails only if it cannot be shown. -/
theorem exists_remarkWaitFailed (program text : String) :
    ∃ result : Except Failure Unit, (CanTell program text → result = .ok ()) ∧
      ∀ m : Machine κ, ∃ line, (remarkWaitFailed program text).run m =
        (result, { m with err := m.err ++ line }) := by
  unfold remarkWaitFailed remark CanTell
  cases hplain : plain ("[dim]buildos: " ++
      ("wait failed for " ++ escape program ++ ": " ++ escape text) ++ "[/dim]") with
  | ok told => exact ⟨.ok (), fun _ => rfl, fun m => ⟨_, run_printErr hplain m⟩⟩
  | error fault =>
      refine ⟨.error (.badMarkup fault), ?_, fun m => ⟨"", ?_⟩⟩
      · intro htold
        obtain ⟨told, htold⟩ := htold
        cases htold
      · have hsame : m = { m with err := m.err ++ "" } := by simp
        unfold printErr shownLine
        rw [hplain, ← hsame]
        rfl

variable {m : Machine κ} {id : Nat} {handle : Handle}

/-- What a wait comes to is the verdict on the answer, unless the remark on it cannot be shown; its
exit code is that of the answer in any case. -/
theorem run_takeAnswer_script (id : Nat) (handle : Handle) (now : Answer) (m : Machine κ) :
    ∃ result line, (takeAnswer id handle now).run m =
      (result, { m with
        handles := m.handles.set id (handle.consume now).1, err := m.err ++ line }) ∧
      ((∀ text, (handle.consume now).2 = .refused text → CanTell handle.program text) →
        result = (handle.consume now).2.verdict) ∧
      (result.toOption.getD .unusable).exitCode = (handle.consume now).2.exitCode := by
  have hprogram : (handle.consume now).1.program = handle.program := by
    unfold Handle.consume
    split <;> rfl
  have hsame : ∀ m : Machine κ, m = { m with err := m.err ++ "" } := by simp
  unfold takeAnswer setHandle
  rw [← hprogram]
  generalize handle.consume now = consumed
  obtain ⟨next, answer⟩ := consumed
  dsimp only
  rw [run_bind, run_modify]
  dsimp only
  cases answer with
  | exited code =>
      exact ⟨_, "", congrArg _ (hsame _), fun _ => congrArg Except.ok (WaitResult.ofCode_eq code),
        WaitResult.exitCode_ofCode code⟩
  | running => exact ⟨_, "", congrArg _ (hsame _), fun _ => rfl, rfl⟩
  | refused text =>
      obtain ⟨result, htell, hrun⟩ := @exists_remarkWaitFailed κ next.program text
      obtain ⟨line, hremark⟩ := hrun { m with handles := m.handles.set id next }
      dsimp only
      rw [run_bind, hremark]
      cases result with
      | error failure =>
          refine ⟨_, line, rfl, fun htold => ?_, rfl⟩
          cases htell (htold text rfl)
      | ok told => exact ⟨_, line, rfl, fun _ => rfl, rfl⟩
  | broken text => exact ⟨_, "", congrArg _ (hsame _), fun _ => rfl, rfl⟩

theorem run_close_of_closed (hfound : m.handles[id]? = some handle)
    (hclosed : handle.closed = true) :
    (close id : Act κ Unit).run m =
      (.error (.alreadyClosed handle.program), { m with closings := m.closings ++ [id] }) := by
  have hclose : handle.close = .error (.alreadyClosed handle.program) := if_pos hclosed
  unfold close
  rw [run_bind, run_modify]
  dsimp only
  rw [run_bind, run_handleAt]
  dsimp only
  rw [hfound, Option.getD_some, hclose]
  rfl

theorem run_close_of_open (hfound : m.handles[id]? = some handle) (hopen : handle.closed = false) :
    (close id : Act κ Unit).run m = (.ok (), { m with
      handles := m.handles.set id { handle with closed := true, owned := [] }
      held := m.held.filter (!handle.owned.contains ·)
      closings := m.closings ++ [id] }) := by
  have hclosed : ¬ handle.closed = true := by
    rw [hopen]
    exact Bool.false_ne_true
  have hclose : handle.close = .ok ({ handle with closed := true, owned := [] }, handle.owned) :=
    if_neg hclosed
  unfold close
  rw [run_bind, run_modify]
  dsimp only
  rw [run_bind, run_handleAt]
  dsimp only
  rw [hfound, Option.getD_some, hclose]
  rfl

variable [Program κ]

theorem run_wait_of_closed (hfound : m.handles[id]? = some handle) (hclosed : handle.closed = true)
    (patience : Patience) :
    (wait id patience).run m = (.error (.waitOnClosed handle.program), m) := by
  unfold wait
  rw [run_bind, run_handleAt, hfound]
  dsimp only [Option.getD_some]
  rw [if_pos hclosed]
  rfl

/-- A wait on an open handle takes the next of its answers. -/
theorem run_wait_of_open (hfound : m.handles[id]? = some handle) (hopen : handle.closed = false)
    {script : List Answer} (hscript : handle.source = .script script) (patience : Patience) :
    (wait id patience).run m = (takeAnswer id handle .running).run m := by
  have hclosed : ¬ handle.closed = true := by
    rw [hopen]
    exact Bool.false_ne_true
  unfold wait
  rw [run_bind, run_handleAt, hfound]
  dsimp only [Option.getD_some]
  rw [if_neg hclosed, hscript]

/-- A guarded wait does what the wait does, and where the wait fails it remarks on the failure. -/
theorem run_guardedWait_of_wait {next : Handle} (patience : Patience)
    (hnext : (stateAfter (wait id patience) m).handles[id]? = some next) :
    ∃ result line, (guardedWait id patience).run m =
      (result, { stateAfter (wait id patience) m with
        err := (stateAfter (wait id patience) m).err ++ line }) ∧
      ((∀ failure, resultOf (wait id patience) m = .error failure →
          CanTell next.program failure.message) →
        ∃ settled, result = .ok settled) ∧
      ∀ settled, result = .ok settled →
        settled = (resultOf (wait id patience) m).toOption.getD .unusable := by
  unfold guardedWait
  rw [run_tryCatch, run_eq (wait id patience) m]
  generalize stateAfter (wait id patience) m = after at hnext ⊢
  cases resultOf (wait id patience) m with
  | ok result =>
      have hsame : after = { after with err := after.err ++ "" } := by simp
      exact ⟨_, "", congrArg _ hsame, fun _ => ⟨result, rfl⟩, fun _ hsettled => by
        cases hsettled
        rfl⟩
  | error failure =>
      obtain ⟨told, htell, hrun⟩ := @exists_remarkWaitFailed κ next.program failure.message
      obtain ⟨line, hremark⟩ := hrun after
      dsimp only
      rw [run_bind, run_handleAt, hnext, Option.getD_some]
      dsimp only
      rw [run_bind, hremark]
      cases told with
      | error other =>
          refine ⟨_, line, rfl, fun htold => ?_, fun _ hsettled => ?_⟩
          · cases htell (htold failure rfl)
          · cases hsettled
      | ok told =>
          exact ⟨_, line, rfl, fun _ => ⟨_, rfl⟩, fun _ hsettled => by
            cases hsettled
            rfl⟩

end Act

/-! ## What a handle comes to -/

namespace Machine

variable [Program κ]

/-- A closed handle refuses what is asked of it, and nothing changes but the record of what was
asked to close. -/
structure Refuses (m : Machine κ) (id : Nat) (program : String) : Prop where
  close : (Act.close id : Act κ Unit).run m =
    (.error (.alreadyClosed program), { m with closings := m.closings ++ [id] })
  wait : ∀ patience, (Act.wait id patience).run m = (.error (.waitOnClosed program), m)

/-- An open handle gives an answer to a wait and has the rest of its answers left.  It can be
closed, and then the open files that it owns are held no longer. -/
structure Gives (m : Machine κ) (id : Nat) (handle : Handle) (answer : Answer)
    (rest : List Answer) : Prop where
  close : (Act.close id : Act κ Unit).run m = (.ok (), { m with
    handles := m.handles.set id { handle with closed := true, owned := [] }
    held := m.held.filter (!handle.owned.contains ·)
    closings := m.closings ++ [id] })
  wait : ∀ patience, ∃ line, stateAfter (Act.wait id patience) m = { m with
    handles := m.handles.set id { handle with source := .script rest }
    err := m.err ++ line }
  verdict : (∀ text, answer = .refused text → CanTell handle.program text) →
    ∀ patience, resultOf (Act.wait id patience) m = answer.verdict

/-- A guarded wait does what a wait does.  Where the wait fails and this can be told, it comes to no
usable status.  The exit code that it amounts to is that of the answer. -/
structure Guards (m : Machine κ) (id : Nat) (program : String) (code : Int) : Prop where
  state : ∀ patience, ∃ line, stateAfter (Act.guardedWait id patience) m =
    { stateAfter (Act.wait id patience) m with
      err := (stateAfter (Act.wait id patience) m).err ++ line }
  result : ∀ patience, (∀ failure, resultOf (Act.wait id patience) m = .error failure →
      CanTell program failure.message) →
    resultOf (Act.guardedWait id patience) m =
      .ok ((resultOf (Act.wait id patience) m).toOption.getD ⟨.failed, none⟩)
  exitCode : ∀ patience result, resultOf (Act.guardedWait id patience) m = .ok result →
    result.exitCode = code

variable {m : Machine κ} {id : Nat} {program : String} {script : List Answer} {owned : List Nat}

/-- A guarded wait follows from the wait that it guards. -/
theorem guards_of_wait {code : Int}
    (hwait : ∀ patience, ∃ next : Handle,
      (stateAfter (Act.wait id patience) m).handles[id]? = some next ∧ next.program = program ∧
      ((resultOf (Act.wait id patience) m).toOption.getD .unusable).exitCode = code) :
    m.Guards id program code where
  state patience := by
    obtain ⟨next, hnext, -, -⟩ := hwait patience
    obtain ⟨result, line, hrun, -, -⟩ := Act.run_guardedWait_of_wait patience hnext
    exact ⟨line, stateAfter_of_run hrun⟩
  result patience htold := by
    obtain ⟨next, hnext, hprogram, -⟩ := hwait patience
    obtain ⟨result, line, hrun, hends, hresult⟩ := Act.run_guardedWait_of_wait patience hnext
    rw [hprogram] at hends
    obtain ⟨settled, hsettled⟩ := hends htold
    rw [resultOf_of_run hrun, hsettled, hresult settled hsettled]
    rfl
  exitCode patience result hresult := by
    obtain ⟨next, hnext, -, hcode⟩ := hwait patience
    obtain ⟨_, line, hrun, -, hsettled⟩ := Act.run_guardedWait_of_wait patience hnext
    rw [resultOf_of_run hrun] at hresult
    rw [hsettled result hresult, hcode]

section Closed

variable (hfound : m.handles[id]? =
  some { program, source := .script script, owned, closed := true })

include hfound

theorem refuses_of_closed : m.Refuses id program where
  close := Act.run_close_of_closed hfound rfl
  wait := Act.run_wait_of_closed hfound rfl

theorem guards_of_closed : m.Guards id program failureCode := by
  apply guards_of_wait
  intro patience
  have hrun := Act.run_wait_of_closed hfound rfl patience
  have hstays : (stateAfter (Act.wait id patience) m).handles[id]? =
      some { program, source := .script script, owned, closed := true } := by
    rw [stateAfter_of_run hrun]
    exact hfound
  refine ⟨_, hstays, rfl, ?_⟩
  rw [resultOf_of_run hrun]
  rfl

end Closed

section Open

variable (hfound : m.handles[id]? = some { program, source := .script script, owned })

include hfound

/-- A wait on an open handle takes an answer and leaves everything else as it is. -/
theorem run_wait_script (patience : Patience) :
    ∃ result line, (Act.wait id patience).run m = (result, { m with
      handles := m.handles.set id { program, source := .script (script.drop 1), owned }
      err := m.err ++ line }) ∧
    ((∀ text, script.head?.getD .running = .refused text → CanTell program text) →
      result = (script.head?.getD .running).verdict) ∧
    (result.toOption.getD .unusable).exitCode = (script.head?.getD .running).exitCode := by
  rw [Act.run_wait_of_open hfound rfl rfl patience]
  have htake := Act.run_takeAnswer_script id { program, source := .script script, owned } .running m
  rw [Handle.consume_script] at htake
  exact htake

theorem gives_of_open :
    m.Gives id { program, source := .script script, owned } (script.head?.getD .running)
      (script.drop 1) where
  close := Act.run_close_of_open hfound rfl
  wait patience := by
    obtain ⟨result, line, hrun, -, -⟩ := run_wait_script hfound patience
    exact ⟨line, stateAfter_of_run hrun⟩
  verdict htold patience := by
    obtain ⟨result, line, hrun, hresult, -⟩ := run_wait_script hfound patience
    rw [resultOf_of_run hrun, hresult htold]

theorem guards_of_open : m.Guards id program (script.head?.getD .running).exitCode := by
  apply guards_of_wait
  intro patience
  obtain ⟨result, line, hrun, -, hcode⟩ := run_wait_script hfound patience
  refine ⟨{ program, source := .script (script.drop 1), owned }, ?_, rfl, ?_⟩
  · rw [stateAfter_of_run hrun]
    exact List.getElem?_set_self (List.getElem?_eq_some_iff.mp hfound).1
  · rw [resultOf_of_run hrun, hcode]

end Open

/-! ## Sequences of calls -/

theorem stateAfter_wait (id : Nat) (patience : Patience) (m : Machine κ) :
    stateAfter ((HandleCall.wait patience).act id) m = stateAfter (Act.wait id patience) m := by
  unfold HandleCall.act
  rw [stateAfter, run_map, run_eq (Act.wait id patience) m]
  cases resultOf (Act.wait id patience) m with
  | error failure => rfl
  | ok result => rfl

theorem stateAfter_guardedWait (id : Nat) (patience : Patience) (m : Machine κ) :
    stateAfter ((HandleCall.guardedWait patience).act id) m =
      stateAfter (Act.guardedWait id patience) m := by
  unfold HandleCall.act
  rw [stateAfter, run_map, run_eq (Act.guardedWait id patience) m]
  cases resultOf (Act.guardedWait id patience) m with
  | error failure => rfl
  | ok result => rfl

theorem stateAfter_close (id : Nat) (m : Machine κ) :
    stateAfter (HandleCall.close.act id) m = stateAfter (Act.close id) m := by
  unfold HandleCall.act
  rw [stateAfter, run_bind, run_eq (Act.close id) m]
  cases resultOf (Act.close id) m with
  | error failure => rfl
  | ok result => rfl

theorem afterCalls_cons (id : Nat) (call : HandleCall) (calls : List HandleCall) (m : Machine κ) :
    m.afterCalls id (call :: calls) = (stateAfter (call.act id) m).afterCalls id calls := rfl

/-- Calls on a closed handle are refused, and all they leave is remarks. -/
theorem afterCalls_of_closed (hfound : m.handles[id]? =
      some { program, source := .script script, owned, closed := true }) (calls : List HandleCall) :
    ∃ line, m.afterCalls id calls = { m with
      closings := m.closings ++ List.replicate (calls.count .close) id
      err := m.err ++ line } := by
  induction calls generalizing m with
  | nil => exact ⟨"", by simp [afterCalls]⟩
  | cons call calls ih =>
      have hcall : ∃ line, stateAfter (call.act id) m = { m with
          closings := m.closings ++ List.replicate ([call].count .close) id
          err := m.err ++ line } := by
        cases call with
        | wait patience =>
            rw [stateAfter_wait, stateAfter_of_run ((refuses_of_closed hfound).wait patience)]
            exact ⟨"", by simp⟩
        | guardedWait patience =>
            obtain ⟨line, hstate⟩ := (guards_of_closed hfound).state patience
            rw [stateAfter_of_run ((refuses_of_closed hfound).wait patience)] at hstate
            rw [stateAfter_guardedWait, hstate]
            exact ⟨line, by simp⟩
        | close =>
            rw [stateAfter_close, stateAfter_of_run (refuses_of_closed hfound).close]
            exact ⟨"", by simp⟩
      obtain ⟨first, hfirst⟩ := hcall
      have hnext : (stateAfter (call.act id) m).handles[id]? =
          some { program, source := .script script, owned, closed := true } := by
        rw [hfirst]
        exact hfound
      obtain ⟨rest, hrest⟩ := ih hnext
      refine ⟨first ++ rest, ?_⟩
      rw [afterCalls_cons, hrest, hfirst]
      dsimp only
      rw [← List.singleton_append (l := calls), List.count_append, List.replicate_add,
        List.append_assoc, String.append_assoc]

theorem stateAfter_call_of_open (hfound : m.handles[id]? =
      some { program, source := .script script, owned }) {call : HandleCall}
    (hcall : call ≠ .close) :
    ∃ line, stateAfter (call.act id) m = { m with
      handles := m.handles.set id { program, source := .script (script.drop 1), owned }
      err := m.err ++ line } := by
  cases call with
  | wait patience =>
      rw [stateAfter_wait]
      exact (gives_of_open hfound).wait patience
  | guardedWait patience =>
      obtain ⟨first, hfirst⟩ := (gives_of_open hfound).wait patience
      obtain ⟨line, hstate⟩ := (guards_of_open hfound).state patience
      refine ⟨first ++ line, ?_⟩
      rw [stateAfter_guardedWait, hstate, hfirst, ← String.append_assoc]
  | close => exact absurd rfl hcall

/-- Calls on an open handle take its answers up to the first close, which takes its open files. -/
theorem afterCalls_of_open (hfound : m.handles[id]? =
      some { program, source := .script script, owned }) (calls : List HandleCall) :
    ∃ line, m.afterCalls id calls = { m with
      handles := m.handles.set id
        { program, source := .script (script.drop (answeredWaits calls)),
          owned := if .close ∈ calls then [] else owned, closed := decide (.close ∈ calls) }
      held := if .close ∈ calls then m.held.filter (!owned.contains ·) else m.held
      closings := m.closings ++ List.replicate (calls.count .close) id
      err := m.err ++ line } := by
  induction calls generalizing m script with
  | nil =>
      obtain ⟨hlt, hget⟩ := List.getElem?_eq_some_iff.mp hfound
      refine ⟨"", ?_⟩
      have hset : m.handles.set id { program, source := .script script, owned } = m.handles := by
        rw [← hget, List.set_getElem_self]
      simp [afterCalls, answeredWaits, hset]
  | cons call calls ih =>
      obtain ⟨hlt, -⟩ := List.getElem?_eq_some_iff.mp hfound
      by_cases hclose : call = .close
      · subst hclose
        have hstate := stateAfter_of_run (gives_of_open hfound).close
        rw [← stateAfter_close] at hstate
        have hnext : (stateAfter (HandleCall.close.act id) m).handles[id]? =
            some { program, source := .script script, owned := [], closed := true } := by
          rw [hstate]
          exact List.getElem?_set_self hlt
        obtain ⟨line, hrest⟩ := afterCalls_of_closed hnext calls
        refine ⟨line, ?_⟩
        rw [afterCalls_cons, hrest, hstate]
        simp [answeredWaits, List.replicate_succ]
      · obtain ⟨first, hfirst⟩ := stateAfter_call_of_open hfound hclose
        have hnext : (stateAfter (call.act id) m).handles[id]? =
            some { program, source := .script (script.drop 1), owned } := by
          rw [hfirst]
          exact List.getElem?_set_self hlt
        obtain ⟨rest, hrest⟩ := ih hnext
        refine ⟨first ++ rest, ?_⟩
        have hmem : .close ∈ call :: calls ↔ .close ∈ calls := by simp [Ne.symm hclose]
        have hwaits : answeredWaits (call :: calls) = 1 + answeredWaits calls := by
          simp [answeredWaits, hclose, Nat.add_comm]
        have hcount : (call :: calls).count .close = calls.count .close :=
          List.count_cons_of_ne hclose
        rw [afterCalls_cons, hrest, hfirst]
        dsimp only
        simp only [List.set_set, List.drop_drop, String.append_assoc, hmem, hwaits, hcount]

/-- Whatever is asked of a handle over a fixed list of answers, in whatever order: each wait before
the first close takes one answer, the first close takes the open files of the handle, and everything
after it is refused. -/
theorem handle_is_used_up_once (hfound : m.handles[id]? =
      some { program, source := .script script, owned }) (calls : List HandleCall) :
    let left := script.drop (answeredWaits calls)
    let now := m.afterCalls id calls
    (∃ line, now = { m with
      handles := m.handles.set id
        { program, source := .script left, owned := if .close ∈ calls then [] else owned,
          closed := decide (.close ∈ calls) }
      held := if .close ∈ calls then m.held.filter (!owned.contains ·) else m.held
      closings := m.closings ++ List.replicate (calls.count .close) id
      err := m.err ++ line }) ∧
    (.close ∈ calls → now.Refuses id program ∧ now.Guards id program failureCode) ∧
    (.close ∉ calls →
      now.Gives id { program, source := .script left, owned } (left.head?.getD .running)
          (left.drop 1) ∧
        now.Guards id program (left.head?.getD .running).exitCode) := by
  intro left now
  obtain ⟨line, hnow⟩ := afterCalls_of_open hfound calls
  obtain ⟨hlt, -⟩ := List.getElem?_eq_some_iff.mp hfound
  have hhandle : now.handles[id]? = some
      { program, source := .script left, owned := if .close ∈ calls then [] else owned,
        closed := decide (.close ∈ calls) } := by
    rw [show now = _ from hnow]
    exact List.getElem?_set_self hlt
  refine ⟨⟨line, hnow⟩, fun hclose => ?_, fun hclose => ?_⟩
  · rw [if_pos hclose, decide_eq_true hclose] at hhandle
    exact ⟨refuses_of_closed hhandle, guards_of_closed hhandle⟩
  · rw [if_neg hclose, decide_eq_false hclose] at hhandle
    exact ⟨gives_of_open hhandle, guards_of_open hhandle⟩

end Machine

/-- A machine with a handle that owns the open file of index 4. -/
def handleMachine (program : String) (script : List Answer) : Machine Pause where
  disk := { tree := .dir [] none, cwd := .root }
  environment := []
  handles := [{ program, source := .script script, owned := [4] }]
  held := [4, 7]

namespace Machine

theorem handle_is_used_up_once_exited :
    let m := handleMachine "cc" [.running, .refused "gone", .exited 3]
    let waits := [HandleCall.wait .poll, .guardedWait .forever]
    m.handles[0]? = some
      { program := "cc", source := .script [.running, .refused "gone", .exited 3], owned := [4] } ∧
    resultOf (Act.wait 0 .poll) (m.afterCalls 0 [.wait .poll]) = .ok ⟨.failed, none⟩ ∧
    resultOf (Act.wait 0 .poll) (m.afterCalls 0 waits) = .ok ⟨.done, some 3⟩ ∧
    (m.afterCalls 0 (waits ++ [.close])).held = [7] ∧
    (m.afterCalls 0 (waits ++ [.close])).Refuses 0 "cc" := by
  intro m waits
  have hfound : m.handles[0]? = some
      { program := "cc", source := .script [.running, .refused "gone", .exited 3], owned := [4] } :=
    rfl
  obtain ⟨⟨line, hnow⟩, hclosed, -⟩ := handle_is_used_up_once hfound (waits ++ [.close])
  obtain ⟨-, -, hsecond⟩ := handle_is_used_up_once hfound [.wait .poll]
  obtain ⟨-, -, hthird⟩ := handle_is_used_up_once hfound waits
  refine ⟨hfound, ?_, ?_, congrArg Machine.held hnow, (hclosed (by decide)).1⟩
  · apply (hsecond (by decide)).1.verdict
    intro text htext
    cases htext
    exact canTell_of_not_closes "cc" (by decide)
  · apply (hthird (by decide)).1.verdict
    intro text htext
    cases htext

end Machine

/-! ## A remark that cannot be shown -/

theorem escape_tag_start : escape "[/a" = "[/a" := by
  have hescaped : escapeFrom 0 "[/a".toList = "[/a".toList := by decide
  unfold escape
  rw [hescaped]
  rfl

theorem escape_tag_end : escape "b]" = "b]" := by
  have hescaped : escapeFrom 0 "b]".toList = "b]".toList := by decide
  unfold escape
  rw [hescaped]
  rfl

/-- The closing tag closes nothing. -/
theorem plain_across :
    plain ("[dim]buildos: " ++ ("wait failed for " ++ escape "[/a" ++ ": " ++ escape "b]") ++
      "[/dim]") = .error (.unmatched ⟨"/a: b".toList, none⟩ 30) := by
  have hpieces : showPieces [] (piecesFrom 0 0 none ("[dim]buildos: ".toList ++
      ("wait failed for ".toList ++ "[/a".toList ++ ": ".toList ++ "b]".toList) ++
        "[/dim]".toList)) = .error (.unmatched ⟨"/a: b".toList, none⟩ 30) := by
    decide
  unfold plain
  rw [escape_tag_start, escape_tag_end]
  simp only [String.toList_append]
  rw [hpieces]
  rfl

/-- A closing tag that begins in the name of a program and ends in the text of a failure: the
guarded wait fails where it should have no usable status. -/
theorem guardedWait_fails_across_values :
    resultOf (Act.guardedWait 0 .poll) (handleMachine "[/a" [.broken "b]"]) =
      .error (.badMarkup (.unmatched ⟨"/a: b".toList, none⟩ 30)) := by
  have hwait : ∃ after, (Act.wait 0 .poll).run (handleMachine "[/a" [.broken "b]"]) =
      (.error (.waitBroken "b]"), after) ∧
      (after.handles[0]?).getD default = { program := "[/a", source := .script [], owned := [4] } :=
    ⟨_, rfl, rfl⟩
  obtain ⟨after, hrun, hhandle⟩ := hwait
  have hremark : (Act.remarkWaitFailed "[/a" "b]").run after =
      (.error (.badMarkup (.unmatched ⟨"/a: b".toList, none⟩ 30)), after) := by
    unfold Act.remarkWaitFailed Act.remark Act.printErr Act.shownLine
    rw [plain_across]
    rfl
  unfold Act.guardedWait resultOf
  rw [run_tryCatch, hrun]
  dsimp only
  rw [run_bind, Act.run_handleAt, hhandle]
  dsimp only [Failure.message]
  rw [run_bind, hremark]

end BuildRunner
