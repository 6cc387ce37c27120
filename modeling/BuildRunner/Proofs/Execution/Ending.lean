import BuildRunner.Proofs.Disk.NamedFile
import BuildRunner.Proofs.Execution.Waiting

/-!
# Ending a run

Whichever way a run ends, the current directory is put back, its handle is closed, and its scratch
files are removed.  `Ends` is the common shape of all these ways: they differ in what is read and
remarked between the steps, which changes nothing.
-/

namespace BuildRunner

variable {κ : Type}

/-- At most another directory has become the current one. -/
structure Disk.Moves (d d' : Disk) : Prop where
  tree : d'.tree = d.tree
  files : d'.files = d.files

theorem isFrame_moves : IsFrame Disk.Moves where
  refl _ := ⟨rfl, rfl⟩
  trans h h' := ⟨h'.tree.trans h.tree, h'.files.trans h.files⟩

theorem moves_of_changeDirectory {d d' : Disk} {path : String}
    (hchange : d.changeDirectory path = .ok d') : d.Moves d' := by
  unfold Disk.changeDirectory at hchange
  cases hfound : d.locate true path with
  | error code => simp [hfound, bind, Except.bind] at hchange
  | ok spot =>
      rw [hfound] at hchange
      cases spot with
      | directory place =>
          simp only [bind, Except.bind, Except.ok.injEq] at hchange
          subst hchange
          exact ⟨rfl, rfl⟩
      | leaf parent name node => simp [bind, Except.bind] at hchange
      | vacant parent name => simp [bind, Except.bind] at hchange

/-- The paths of the files that capture the output of a run. -/
def Capture.paths : Capture → List String
  | .nowhere => []
  | .joined log => [log]
  | .apart out err => [out, err]

/-- A disk after files have been removed by their paths, one after the other. -/
def Disk.without (d : Disk) (paths : List String) : Disk :=
  paths.foldl (fun d path => stateAfter (DiskM.rm path false) d) d

theorem fades_without (paths : List String) (d : Disk) : d.Fades (d.without paths) := by
  induction paths generalizing d with
  | nil => exact isFrame_fades.refl d
  | cons path paths ih => exact isFrame_fades.trans (fades_rm path d) (ih _)

/-- A disk after going back to a directory by its path, if that is possible. -/
def Disk.backAt (d : Disk) (saved : String) : Disk :=
  match d.currentPath with
  | .ok path =>
    if path = saved then d
    else stateAfter (DiskM.change saved fun d => d.changeDirectory saved) d
  | .error _ => d

/-- Nothing is done where the directory is the current one still. -/
theorem Disk.backAt_of_here {d : Disk} {saved : String} (hhere : d.currentPath = .ok saved) :
    d.backAt saved = d := by
  rw [backAt, hhere]
  exact if_pos rfl

/-- The handle of a program is closed and its files are released. -/
structure Closed (m m' : Machine κ) (id : Nat) : Prop where
  closings : m'.closings = m.closings ++ [id]
  files : m.disk.files.length ≤ m'.disk.files.length
  accounts : m'.accounts = m.accounts.set id ([], true)
  held : ∃ owned, m.accounts[id]? = some (owned, false) ∧
    m'.held = m.held.filter (!owned.contains ·)

theorem Closed.of_sameBooks_left {m m' m'' : Machine κ} {id : Nat} (hbooks : SameBooks m m')
    (hclosed : Closed m' m'' id) : Closed m m'' id := by
  obtain ⟨owned, hhandle, hheld⟩ := hclosed.held
  exact ⟨by rw [hclosed.closings, hbooks.closings], hbooks.files.trans hclosed.files,
    by rw [hclosed.accounts, hbooks.accounts], owned, by rw [← hbooks.accounts, hhandle],
    by rw [hheld, hbooks.held]⟩

theorem Closed.of_sameBooks_right {m m' m'' : Machine κ} {id : Nat} (hclosed : Closed m m' id)
    (hbooks : SameBooks m' m'') : Closed m m'' id := by
  obtain ⟨owned, hhandle, hheld⟩ := hclosed.held
  exact ⟨by rw [hbooks.closings, hclosed.closings], hclosed.files.trans hbooks.files,
    by rw [hbooks.accounts, hclosed.accounts], owned, hhandle, by rw [hbooks.held, hheld]⟩

namespace Act

/-! ## The steps of an end -/

theorem respects_enter (path : String) : Respects (Filing Disk.Moves)
    (onDisk (DiskM.change path fun d => d.changeDirectory path) : Act κ Unit) :=
  respects_onDisk (respects_change isFrame_moves path fun _ _ _ => moves_of_changeDirectory)

theorem respects_putBack (saved : String) :
    Respects (Filing Disk.Moves) (putBack saved : Act κ Unit) := by
  have hR : IsFrame (Filing Disk.Moves : Machine κ → Machine κ → Prop) := isFrame_filing isFrame_moves
  have hrestore : Respects (Filing Disk.Moves) (restore saved : Act κ Unit) := by
    refine respects_bind hR (respects_of_quiet isFrame_moves respects_currentPath) fun path => ?_
    split
    · exact respects_enter saved
    · exact respects_pure hR _
  refine respects_tryCatch hR hrestore fun failure => ?_
  split
  · exact respects_of_quiet isFrame_moves (respects_remark _)
  · exact respects_throw hR _

/-- A removal never fails, it only reports. -/
theorem run_discard_rm (path : String) (m : Machine κ) :
    (discard (rm path false) : Act κ Unit).run m =
      (.ok (), { m with disk := stateAfter (DiskM.rm path false) m.disk }) := by
  obtain ⟨report, hreport⟩ := exists_report path m.disk
  have hmap := run_map (Function.const Report ()) (rm path false : Act κ Report) m
  have hrun : (rm path false : Act κ Report).run m =
      (.ok report, { m with disk := stateAfter (DiskM.rm path false) m.disk }) := by
    unfold rm
    rw [run_onDisk, hreport]
  rw [hrun] at hmap
  exact hmap

/-- The scratch files are removed one after the other, and nothing else happens. -/
theorem run_cleanUp (call : Call) (m : Machine κ) :
    (cleanUp call).run m = (.ok (), { m with disk := m.disk.without call.capture.paths }) := by
  unfold cleanUp
  cases call.capture with
  | nowhere => rfl
  | joined log => exact run_discard_rm log m
  | apart out err =>
      dsimp only
      rw [run_bind, run_discard_rm]
      exact run_discard_rm err _

theorem stateAfter_cleanUp (call : Call) (m : Machine κ) :
    stateAfter (cleanUp call) m = { m with disk := m.disk.without call.capture.paths } :=
  stateAfter_of_run (run_cleanUp call m)

theorem respects_cleanUp (call : Call) :
    Respects (Filing Disk.Fades) (cleanUp call : Act κ Unit) := by
  intro m
  rw [stateAfter_cleanUp]
  exact ⟨fades_without _ _, rfl, rfl, rfl, rfl, rfl, rfl, rfl⟩

theorem respects_close (id : Nat) : Respects (OnlyDisk Eq) (close id : Act κ Unit) := by
  intro m
  unfold close
  rw [stateAfter, run_bind, run_modify]
  dsimp only
  rw [run_bind, run_handleAt]
  dsimp only
  split
  · exact ⟨rfl, rfl, rfl⟩
  · exact ⟨rfl, rfl, rfl⟩

/-- A handle that is open can be closed. -/
theorem closed_close {id : Nat} {owned : List Nat} {m : Machine κ}
    (hopen : m.accounts[id]? = some (owned, false)) :
    ∃ m', (close id).run m = (.ok (), m') ∧ Closed m m' id := by
  rw [accounts_getElem?] at hopen
  obtain ⟨handle, hhandle, haccount⟩ := Option.map_eq_some_iff.mp hopen
  rw [Handle.account, Prod.mk.injEq] at haccount
  obtain ⟨rfl, hclosed⟩ := haccount
  have hclose : handle.close = .ok ({ handle with closed := true, owned := [] }, handle.owned) := by
    rw [Handle.close, hclosed]
    rfl
  have hget : ((m.handles[id]?).getD default).close =
      .ok ({ handle with closed := true, owned := [] }, handle.owned) := by
    rw [hhandle, ← hclose]
    rfl
  unfold close
  rw [run_bind, run_modify]
  dsimp only
  rw [run_bind, run_handleAt]
  dsimp only
  rw [hget]
  refine ⟨_, rfl, rfl, Nat.le_refl _, ?_, handle.owned, ?_, rfl⟩
  · exact List.map_set
  · rw [accounts_getElem?, hhandle, ← hclosed]
    rfl

theorem stateAfter_endWait (waiting : Waiting) (m : Machine κ) :
    stateAfter (endWait waiting) m =
      stateAfter (close waiting.handle) (stateAfter (putBack waiting.saved) m) :=
  stateAfter_ensuring _ _ m

theorem run_currentPath (m : Machine κ) :
    (currentPath : Act κ String).run m =
      match m.disk.currentPath with
      | .ok path => (.ok path, m)
      | .error code => (.error (.system code none none), m) := by
  unfold currentPath
  rw [run_onDisk]
  have hrun : DiskM.currentPath.run m.disk =
      match m.disk.currentPath with
      | .ok path => (.ok path, m.disk)
      | .error code => (.error (.system code none none), m.disk) := by
    unfold DiskM.currentPath
    rw [run_bind, run_get]
    dsimp only
    cases m.disk.currentPath with
    | ok path => rfl
    | error code => rfl
  rw [resultOf, stateAfter, hrun]
  cases m.disk.currentPath with
  | ok path => rfl
  | error code => rfl

theorem disk_restore (saved : String) (m : Machine κ) :
    (stateAfter (restore saved : Act κ Unit) m).disk = m.disk.backAt saved := by
  unfold restore Disk.backAt
  rw [stateAfter, run_bind, run_currentPath]
  cases m.disk.currentPath with
  | error code => rfl
  | ok path =>
      dsimp only
      by_cases hpath : path = saved
      · rw [if_neg (not_not.mpr hpath), if_pos hpath]
        rfl
      · rw [if_pos hpath, if_neg hpath, run_onDisk]

/-- A failure to go back is at most remarked on. -/
theorem disk_putBack (saved : String) (m : Machine κ) :
    (stateAfter (putBack saved) m).disk = m.disk.backAt saved := by
  rw [← disk_restore]
  unfold putBack
  rw [stateAfter, run_tryCatch]
  rcases hrestore : (restore saved : Act κ Unit).run m with ⟨failure | _, m'⟩
  · rw [stateAfter, hrestore]
    dsimp only
    split
    · have hquiet := respects_remark ("cannot restore directory " ++ Console.escape saved ++ ": " ++
        Console.escape failure.message) m'
      rw [stateAfter] at hquiet
      exact hquiet.disk.symm
    · rfl
  · rw [stateAfter, hrestore]

theorem disk_endWait (waiting : Waiting) (m : Machine κ) :
    (stateAfter (endWait waiting) m).disk = m.disk.backAt waiting.saved := by
  rw [stateAfter_endWait, ← disk_putBack]
  exact (respects_close _ _).disk.symm

theorem stateAfter_abandon (waiting : Waiting) (m : Machine κ) :
    stateAfter (abandon waiting) m =
      stateAfter (cleanUp waiting.call) (stateAfter (endWait waiting) m) :=
  stateAfter_ensuring _ _ m

theorem sameBooks_cleanUp (call : Call) (m : Machine κ) :
    SameBooks m (stateAfter (cleanUp call) m) := by
  have hfiling := respects_cleanUp call m
  exact .of_filing hfiling hfiling.disk.files.ge

theorem closed_endWait {waiting : Waiting} {owned : List Nat} {m : Machine κ}
    (hopen : m.accounts[waiting.handle]? = some (owned, false)) :
    Closed m (stateAfter (endWait waiting) m) waiting.handle := by
  have hback := respects_putBack waiting.saved m
  have hbooks : SameBooks m (stateAfter (putBack waiting.saved) m) :=
    .of_filing hback (hback.disk.files ▸ Nat.le_refl _)
  rw [← hbooks.accounts] at hopen
  obtain ⟨m', hrun, hclosed⟩ := closed_close hopen
  rw [stateAfter_endWait, stateAfter, hrun]
  exact hclosed.of_sameBooks_left hbooks

end Act

/-! ## The ways to an end -/

/-- The wait of a run has ended and its scratch files have been removed. -/
inductive Ends (waiting : Waiting) (m : Machine κ) : Machine κ → Prop
  | intro {m₁ m₂ : Machine κ} (hbefore : Quiet m m₁)
      (hbetween : Quiet (stateAfter (Act.endWait waiting) m₁) m₂) :
      Ends waiting m (stateAfter (Act.cleanUp waiting.call) m₂)

theorem Ends.closed {waiting : Waiting} {owned : List Nat} {m m' : Machine κ}
    (hends : Ends waiting m m') (hopen : m.accounts[waiting.handle]? = some (owned, false)) :
    Closed m m' waiting.handle := by
  obtain ⟨hbefore, hbetween⟩ := hends
  rw [← hbefore.accounts] at hopen
  have hclosed := (Act.closed_endWait hopen).of_sameBooks_left (.of_quiet hbefore)
  exact (hclosed.of_sameBooks_right (.of_quiet hbetween)).of_sameBooks_right
    (Act.sameBooks_cleanUp _ _)

/-- The directory is put back, and then the scratch files are removed. -/
theorem Ends.disk {waiting : Waiting} {m m' : Machine κ} (hends : Ends waiting m m') :
    m'.disk = (m.disk.backAt waiting.saved).without waiting.call.capture.paths := by
  obtain ⟨hbefore, hbetween⟩ := hends
  rw [Act.stateAfter_cleanUp, ← hbetween.disk, Act.disk_endWait, ← hbefore.disk]

theorem Ends.of_quiet {waiting : Waiting} {m m' m'' : Machine κ} (hquiet : Quiet m m')
    (hends : Ends waiting m' m'') : Ends waiting m m'' := by
  obtain ⟨hbefore, hbetween⟩ := hends
  exact .intro (isFrame_quiet.trans hquiet hbefore) hbetween

/-- What a turn of a waiting run leads to: the run still waits, or it has ended.  A result is made of
what its files held when the directory had been put back. -/
inductive Waited (waiting : Waiting) (m : Machine κ) : Except Failure Polled × Machine κ → Prop
  | suspended {delay : Option Nat} {m' : Machine κ} (hquiet : Quiet m m') :
      Waited waiting m (.ok (.suspended delay waiting), m')
  | finished {code : Int} {result : JobResult} {m₁ m₂ : Machine κ} (hbefore : Quiet m m₁)
      (hcollect : (Act.collect waiting.call code).run (stateAfter (Act.endWait waiting) m₁) =
        (.ok result, m₂)) :
      Waited waiting m (.ok (.finished result), stateAfter (Act.cleanUp waiting.call) m₂)
  | failed {failure : Failure} {m' : Machine κ} (hends : Ends waiting m m') :
      Waited waiting m (.error failure, m')

theorem Act.ends_abandon (waiting : Waiting) (m : Machine κ) :
    Ends waiting m (stateAfter (abandon waiting) m) := by
  rw [stateAfter_abandon]
  exact .intro (isFrame_quiet.refl m) (isFrame_quiet.refl _)

namespace Act

/-- The program has given its exit code: the wait ends, the output is read, and the scratch files are
removed. -/
theorem waited_end {waiting : Waiting} {m m₁ : Machine κ} (hquiet : Quiet m m₁) (code : Int) :
    Waited waiting m ((do
      let result ← ensuring
        (do
          endWait waiting
          collect waiting.call code)
        (cleanUp waiting.call)
      return .finished result : Act κ Polled).run m₁) := by
  let reading : Act κ JobResult := do
    endWait waiting
    collect waiting.call code
  have hread : Quiet (stateAfter (endWait waiting) m₁) (stateAfter reading m₁) ∧
      ∀ result, resultOf reading m₁ = .ok result →
        (collect waiting.call code).run (stateAfter (endWait waiting) m₁) =
          (.ok result, stateAfter reading m₁) := by
    rcases hended : (endWait waiting).run m₁ with ⟨failure | _, m₂⟩
    · have hstate : stateAfter (endWait waiting) m₁ = m₂ := congrArg Prod.snd hended
      have hreading : reading.run m₁ = (.error failure, m₂) := by rw [run_bind, hended]
      rw [hstate, stateAfter, resultOf, hreading]
      exact ⟨isFrame_quiet.refl m₂, by simp⟩
    · have hstate : stateAfter (endWait waiting) m₁ = m₂ := congrArg Prod.snd hended
      have hreading : reading.run m₁ = (collect waiting.call code).run m₂ := by
        rw [run_bind, hended]
      rw [hstate, stateAfter, resultOf, hreading]
      exact ⟨respects_collect _ _ m₂, fun result hresult => Prod.ext hresult rfl⟩
  rw [run_bind]
  rcases ensuring_cases reading (cleanUp waiting.call) m₁ with
    ⟨result, hresult, hrun⟩ | ⟨failure, hrun⟩
  · rw [hrun]
    exact .finished hquiet (hread.2 result hresult)
  · rw [hrun]
    exact .failed (.intro hquiet hread.1)

variable [Program κ]

theorem waited_poll (waiting : Waiting) (m : Machine κ) :
    Waited waiting m ((poll waiting).run m) := by
  let asking : Act κ (Option Nat ⊕ Int) := do
    let result ← guardedWait waiting.handle .poll
    if result.outcome = .pending then return Sum.inl (← suspension)
    else return Sum.inr result.exitCode
  have hask : Respects Quiet asking := by
    refine respects_bind isFrame_quiet (quiet_guardedWait_poll _) fun result => ?_
    split
    · exact respects_bind isFrame_quiet respects_suspension fun _ => respects_pure isFrame_quiet _
    · exact respects_pure isFrame_quiet _
  unfold poll
  rw [run_bind]
  rcases onFailure_cases asking (abandon waiting) m with
    ⟨delay | code, -, hrun⟩ | ⟨_, failure, -, hrun⟩
  · rw [hrun]
    exact .suspended (hask m)
  · rw [hrun]
    exact waited_end (hask m) code
  · rw [hrun]
    exact .failed ((ends_abandon waiting _).of_quiet (hask m))

end Act

end BuildRunner
