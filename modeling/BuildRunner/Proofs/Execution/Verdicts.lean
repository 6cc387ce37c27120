import BuildRunner.Proofs.Console.Lines
import BuildRunner.Proofs.Execution.Turns
import BuildRunner.Proofs.Execution.Scratch

/-!
# Runs come to verdicts

Whatever a program answers, the run that waits for it goes on waiting or has a verdict: what the
system refuses is remarked on, and the remark can be shown.  It takes a current directory that
stands and a scratch directory that is in place; the first is asked for its path, and the second is
read.
-/

namespace BuildRunner

open BuildRunner.Schedule Console

variable {κ : Type}

/-- A remark can be made on what a program answers: it does not close a bracket that the name of the
program has left open. -/
def Answer.IsShown : Answer → Prop
  | .refused text => closes text.toList = false
  | .broken text => closes text.toList = false
  | _ => True

/-- Remarks can be made on all answers of the programs of a type. -/
structure AnswersShown (κ : Type) [Program κ] : Prop where
  shown : ∀ program : κ, (Program.answer program).IsShown

theorem AnswersShown.answerOf [Program κ] (hshown : AnswersShown κ) (m : Machine κ) (index : Nat) :
    (m.answerOf index).IsShown := by
  unfold Machine.answerOf
  cases m.programs[index]? with
  | none => trivial
  | some program => exact hshown.shown program

/-! ## Remarks on failures -/

/-- The message of a refusal begins with a bracket. -/
theorem closes_message_system (code : Errno) (path target : Option String) :
    closes (Failure.system code path target).message.toList = false := by
  have hbracket : "[Errno ".toList = '[' :: "Errno ".toList := by decide
  unfold Failure.message
  simp only [String.toList_append, List.append_assoc]
  rw [hbracket, List.cons_append]
  rfl

namespace Act

/-- A remark on two values can be shown if the second does not close a bracket of the first. -/
theorem exists_plain_remark_on {front : String} (hfront : IsUnmarked front.toList)
    (hne : front.toList ≠ []) (value : String) {text : String}
    (htext : closes text.toList = false) :
    ∃ line, plain ("[dim]buildos: " ++
      (front ++ Console.escape value ++ ": " ++ Console.escape text) ++ "[/dim]") = .ok line := by
  have htold : closes ((Console.escape text).toList ++ remarkEnd) = false := by
    rcases toList_escape text with htext' | htext'
    · rw [htext', closes_escapeFrom_append follows_remarkEnd.closed, htext]
    · rw [htext', List.append_assoc, closes_escapeFrom_append (by decide), htext]
  have hbehind : Follows remarkStyles
      (": ".toList ++ ((Console.escape text).toList ++ remarkEnd)) :=
    .words (by decide) (by decide) htold (follows_remarkEnd.value text)
  have hshows : Shows remarkStyles 0 (front.toList ++ ((Console.escape value).toList ++
      (": ".toList ++ ((Console.escape text).toList ++ remarkEnd)))) :=
    (hbehind.value value).unmarked hfront hne 0
  apply exists_plain
  apply shows_remark
  simpa only [String.toList_append, List.append_assoc] using hshows

theorem exists_run_remark_on {front : String} (hfront : IsUnmarked front.toList)
    (hne : front.toList ≠ []) (value : String) {text : String} (htext : closes text.toList = false)
    (m : Machine κ) :
    ∃ line, (remark (front ++ Console.escape value ++ ": " ++ Console.escape text)).run m =
      (.ok (), { m with err := m.err ++ line }) := by
  obtain ⟨line, hplain⟩ := exists_plain_remark_on hfront hne value htext
  exact ⟨_, run_printErr hplain m⟩

theorem exists_run_remarkWaitFailed (program : String) {text : String}
    (htext : closes text.toList = false) (m : Machine κ) :
    ∃ line, (remarkWaitFailed program text).run m = (.ok (), { m with err := m.err ++ line }) :=
  exists_run_remark_on (by decide) (by decide) program htext m

/-- An answer always comes to a result. -/
theorem exists_run_settle {m : Machine κ} {id index : Nat} {handle : Handle}
    (hwatches : m.Watches id index handle) {answer : Answer} (hshown : answer.IsShown) :
    ∃ result line, (settle id handle answer : Act κ WaitResult).run m =
      (.ok result, { m with err := m.err ++ line }) := by
  have hsame : m = { m with err := m.err ++ "" } := by simp
  cases answer with
  | exited code => exact ⟨_, "", (run_settle_exited hwatches code).trans (by rw [← hsame])⟩
  | running => exact ⟨_, "", (run_settle_running hwatches).trans (by rw [← hsame])⟩
  | refused text =>
      obtain ⟨line, htold⟩ := exists_run_remarkWaitFailed handle.program hshown m
      refine ⟨.unusable, line, ?_⟩
      rw [settle, run_tryCatch, run_takeAnswer hwatches]
      dsimp only
      rw [run_bind, htold]
      rfl
  | broken text =>
      obtain ⟨line, htold⟩ := exists_run_remarkWaitFailed handle.program hshown m
      refine ⟨.unusable, line, ?_⟩
      have hname : ((m.handles[id]?).getD default).program = handle.program := by
        rw [hwatches.found]
        rfl
      have hremark : (do
          remarkWaitFailed (← handleAt id).program (Failure.waitBroken text).message
          pure WaitResult.unusable : Act κ WaitResult).run m =
            (.ok .unusable, { m with err := m.err ++ line }) := by
        rw [run_bind, run_handleAt]
        dsimp only
        rw [hname]
        show (do
          remarkWaitFailed handle.program text
          pure WaitResult.unusable : Act κ WaitResult).run m = _
        rw [run_bind, htold]
        rfl
      rw [settle, run_tryCatch, run_takeAnswer hwatches]
      exact hremark

/-! ## The end of a wait -/

/-- Going back to a directory fails only as the system refuses it. -/
theorem exists_run_putBack {m : Machine κ} {path saved : String}
    (hhere : m.disk.currentPath = .ok path) (hsaved : Disk.hasNul saved = false) :
    ∃ line, (putBack saved).run m =
      (.ok (), { m with disk := m.disk.backAt saved, err := m.err ++ line }) := by
  suffices hback : ∃ disk line,
      (putBack saved).run m = (.ok (), { m with disk, err := m.err ++ line }) by
    obtain ⟨disk, line, hrun⟩ := hback
    have hdisk := disk_putBack saved m
    rw [stateAfter_of_run hrun] at hdisk
    exact ⟨line, by rw [hrun, ← hdisk]⟩
  have hsame : m = { m with disk := m.disk, err := m.err ++ "" } := by simp
  unfold putBack restore
  rw [run_tryCatch, run_bind, run_currentPath, hhere]
  dsimp only
  by_cases hpath : path = saved
  · rw [if_neg (not_not.mpr hpath)]
    exact ⟨m.disk, "", by rw [← hsame]; rfl⟩
  · have hrun := run_ask saved (fun d => d.changeDirectory saved) m.disk
    rw [if_pos hpath, run_onDisk]
    cases hchange : m.disk.changeDirectory saved with
    | ok disk =>
        have hchanged : (DiskM.change saved fun d => d.changeDirectory saved).run m.disk =
            (.ok (), disk) := by
          unfold DiskM.change
          rw [run_bind, hrun, hsaved, if_neg (by decide), hchange]
          rfl
        rw [resultOf, stateAfter, hchanged]
        exact ⟨disk, "", by rw [String.append_empty]⟩
    | error code =>
        have hchanged : (DiskM.change saved fun d => d.changeDirectory saved).run m.disk =
            (.error (.system code (some saved) none), m.disk) := by
          unfold DiskM.change
          rw [run_bind, hrun, hsaved, if_neg (by decide), hchange]
        obtain ⟨line, htold⟩ := @exists_run_remark_on κ "cannot restore directory " (by decide)
          (by decide) saved _ (closes_message_system code (some saved) none) m
        rw [resultOf, stateAfter, hchanged]
        dsimp only
        exact ⟨m.disk, line, htold⟩

theorem exists_run_close {m : Machine κ} {id index : Nat} {handle : Handle}
    (hwatches : m.Watches id index handle) :
    ∃ held closings, (close id).run m =
      (.ok (), { m with
        handles := m.handles.set id { handle with closed := true, owned := [] }
        held
        closings }) := by
  have hclose : handle.close = .ok ({ handle with closed := true, owned := [] }, handle.owned) := by
    rw [Handle.close, hwatches.isOpen]
    rfl
  have hget : ((m.handles[id]?).getD default).close =
      .ok ({ handle with closed := true, owned := [] }, handle.owned) := by
    rw [hwatches.found, ← hclose]
    rfl
  unfold close
  rw [run_bind, run_modify]
  dsimp only
  rw [run_bind, run_handleAt]
  dsimp only
  rw [hget]
  exact ⟨_, _, rfl⟩

/-- What was captured can be read. -/
theorem exists_run_collect {base : String} (hbase : FitsScratch base) {n : Nat} (hn : n < 16 ^ 32)
    (call : Call) (hwanted : call.wanted = .verdict)
    (hcapture : call.capture = .joined (scratchFile base n)) (code : Int) {m : Machine κ}
    (hkeeps : m.disk.tree.KeepsScratch base) :
    ∃ errors, (collect call code).run m = (.ok (.verdict errors), m) := by
  obtain ⟨text, htext⟩ := hbase.exists_run_readText hn hkeeps
  refine ⟨if code = successCode then none else some text, ?_⟩
  unfold collect
  rw [hcapture, hwanted]
  dsimp only
  rw [run_bind, htext]
  rfl

end Act

/-! ## Runs that wait -/

/-- A run for a verdict that waits for a program of the machine. -/
structure Waiting.Awaits (waiting : Waiting) (base : String) (m : Machine κ) (index : Nat) :
    Prop where
  wanted : waiting.call.wanted = .verdict
  capture : ∃ n < 16 ^ 32, waiting.call.capture = .joined (scratchFile base n)
  saved : Disk.hasNul waiting.saved = false
  running : index < m.programs.length
  watches : ∃ handle, m.Watches waiting.handle index handle

/-- A handle is closed, and what other runs go by stays. -/
structure ClosesHandle (id : Nat) (m m' : Machine κ) : Prop where
  handles : ∃ handle, m'.handles = m.handles.set id handle
  programs : m'.programs = m.programs
  environment : m'.environment = m.environment
  scratch : m'.scratch = m.scratch
  out : m'.out = m.out

namespace Act

theorem exists_run_endWait {waiting : Waiting} {m : Machine κ} {index : Nat} {handle : Handle}
    {path : String} (hhere : m.disk.currentPath = .ok path)
    (hsaved : Disk.hasNul waiting.saved = false)
    (hwatches : m.Watches waiting.handle index handle) :
    ∃ m', (endWait waiting).run m = (.ok (), m') ∧ ClosesHandle waiting.handle m m' ∧
      m'.disk = m.disk.backAt waiting.saved := by
  obtain ⟨line, hback⟩ := exists_run_putBack hhere hsaved
  obtain ⟨held, closings, hclose⟩ := @exists_run_close κ
    { m with disk := m.disk.backAt waiting.saved, err := m.err ++ line }
    waiting.handle index handle (hwatches.of_handles rfl)
  refine ⟨{ m with
      disk := m.disk.backAt waiting.saved
      handles := m.handles.set waiting.handle { handle with closed := true, owned := [] }
      held
      closings
      err := m.err ++ line }, ?_, ⟨⟨_, rfl⟩, rfl, rfl, rfl, rfl⟩, rfl⟩
  unfold endWait
  rw [run_ensuring, resultOf, stateAfter, hback]
  dsimp only
  rw [hclose]

variable [Program κ]

/-- The poll that finds the program ended comes to a verdict. -/
theorem exists_run_poll (hshown : AnswersShown κ) {base : String} (hbase : FitsScratch base)
    {m : Machine κ} (hplace : m.disk.InPlace base) {waiting : Waiting} {index : Nat}
    (hawaits : waiting.Awaits base m index) (hended : m.answerOf index ≠ .running) :
    ∃ errors m', (poll waiting).run m = (.ok (.finished (.verdict errors)), m') ∧
      ClosesHandle waiting.handle m m' ∧ m'.disk.InPlace base := by
  obtain ⟨handle, hwatches⟩ := hawaits.watches
  obtain ⟨n, hn, hcapture⟩ := hawaits.capture
  obtain ⟨path, hhere, -⟩ := hplace.exists_path
  obtain ⟨result, line, hsettle⟩ := exists_run_settle hwatches (hshown.answerOf m index)
  have hasked := (run_guardedWait_poll hwatches).trans hsettle
  obtain ⟨m₂, hend, hcloses, hdisk⟩ := @exists_run_endWait κ waiting
    { m with err := m.err ++ line } index handle path hhere hawaits.saved (hwatches.of_handles rfl)
  have hback : m₂.disk.InPlace base := hdisk ▸ hplace.backAt waiting.saved
  obtain ⟨errors, hcollect⟩ := exists_run_collect hbase hn _ hawaits.wanted hcapture result.exitCode
    (m := m₂) hback.scratch
  have hclean : (m₂.disk.without waiting.call.capture.paths).InPlace base := by
    rw [hcapture]
    exact hback.without_scratchFile hbase hn
  refine ⟨errors, { m₂ with disk := m₂.disk.without waiting.call.capture.paths }, ?_,
    ⟨hcloses.handles, hcloses.programs, hcloses.environment, hcloses.scratch, hcloses.out⟩, hclean⟩
  unfold poll onFailure
  rw [run_bind, run_tryCatch, run_bind, hasked]
  dsimp only
  rw [if_neg (outcome_ne_pending hwatches hended hsettle), run_pure]
  dsimp only
  rw [run_bind, run_ensuring, resultOf, stateAfter, run_bind, hend]
  dsimp only
  rw [hcollect]
  dsimp only
  rw [run_cleanUp]
  rfl

/-- A waiting run goes on waiting and has changed nothing, or it comes to a verdict. -/
theorem resume_awaiting (hshown : AnswersShown κ) {base : String} (hbase : FitsScratch base)
    {m : Machine κ} (hplace : m.disk.InPlace base) {settings : Settings}
    (hsettings : Settings.read m.environment = .ok settings) {waiting : Waiting} {index : Nat}
    (hawaits : waiting.Awaits base m index) :
    (m.answerOf index = .running ∧ coroutine.resume (.waiting waiting) m =
        (.ok (.paused settings.pollDelay (.waiting waiting)), m)) ∨
      ∃ errors m', coroutine.resume (.waiting waiting) m =
        (.ok (.ended (.run (.verdict errors))), m') ∧ ClosesHandle waiting.handle m m' ∧
          m'.disk.InPlace base := by
  obtain ⟨handle, hwatches⟩ := hawaits.watches
  by_cases hrunning : m.answerOf index = .running
  · exact Or.inl ⟨hrunning, resume_waiting_of_running hsettings hwatches hrunning⟩
  · right
    have hinside : waiting.Awaits base { m with inTask := true } index :=
      ⟨hawaits.wanted, hawaits.capture, hawaits.saved, hawaits.running, handle,
        hwatches.of_handles rfl⟩
    obtain ⟨errors, m', hpoll, hcloses, hplace'⟩ := exists_run_poll hshown hbase
      (m := { m with inTask := true }) hplace hinside hrunning
    refine ⟨errors, { m' with inTask := m.inTask }, ?_,
      ⟨hcloses.handles, hcloses.programs, hcloses.environment, hcloses.scratch, hcloses.out⟩,
      hplace'⟩
    rw [resume_eq, resultOf, stateAfter]
    unfold turn
    rw [run_map_progress, hpoll]
    rfl

end Act

end BuildRunner
