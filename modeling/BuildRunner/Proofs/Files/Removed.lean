import BuildRunner.Proofs.Disk.Sinking

/-!
# What a removal leaves behind

`rm` tells files, links and directories apart and removes each in its way.  Where it succeeds the
path leads nowhere afterwards, even if the directory above is pruned as well.  A named pipe is none
of the three: it is left where it is, and the removal still counts as a success.
-/

namespace BuildRunner

variable {κ : Type}

namespace Disk

variable {d d' : Disk} {path : String}

/-- A path that names a named pipe or the null device. -/
def NamesSpecial (d : Disk) (path : String) : Prop :=
  d.kindOf false path = some .pipe ∨ d.kindOf false path = some .null

/-- What is neither a file nor a link nor a directory is special. -/
theorem namesSpecial_of_entryExists (hexists : d.entryExists path = true)
    (hfile : d.isFile path = false) (hlink : d.isLink path = false)
    (hdirectory : d.isDirectory path = false) : d.NamesSpecial path := by
  rw [entryExists_eq] at hexists
  rw [Bool.eq_false_iff, ne_eq, isFile_iff] at hfile
  rw [Bool.eq_false_iff, ne_eq, isLink_iff] at hlink
  rw [Bool.eq_false_iff, ne_eq, isDirectory_iff] at hdirectory
  obtain ⟨kind, hkind⟩ := Option.isSome_iff_exists.mp hexists
  cases kind with
  | directory => exact absurd (kindOf_follow hkind (by simp)) hdirectory
  | link target => exact absurd ⟨target, hkind⟩ hlink
  | file => exact absurd (kindOf_follow hkind (by simp)) hfile
  | pipe => exact Or.inl hkind
  | null => exact Or.inr hkind

theorem NamesSpecial.not_removable (hspecial : d.NamesSpecial path) :
    d.isFile path = false ∧ d.isLink path = false ∧ d.isDirectory path = false := by
  have hfollow : d.kindOf true path = d.kindOf false path := by
    rcases hspecial with hkind | hkind
    · rw [kindOf_follow hkind (by simp), hkind]
    · rw [kindOf_follow hkind (by simp), hkind]
  refine ⟨?_, ?_, ?_⟩
  · rw [Bool.eq_false_iff, ne_eq, isFile_iff, hfollow]
    rcases hspecial with hkind | hkind <;> simp [hkind]
  · rw [Bool.eq_false_iff, ne_eq, isLink_iff]
    rcases hspecial with hkind | hkind <;> simp [hkind]
  · rw [Bool.eq_false_iff, ne_eq, isDirectory_iff, hfollow]
    rcases hspecial with hkind | hkind <;> simp [hkind]

/-- A path that was unlinked leads nowhere. -/
theorem entryExists_of_unlink (hunlink : d.unlink path = .ok d') : d'.entryExists path = false := by
  obtain ⟨parent, name, htip, -, htree, -⟩ := unlink_inv hunlink
  refine (recedes_of_unlink hunlink).entryExists_eq_false htip ?_
  rw [htree, Node.kindAt_drop, if_pos (List.prefix_refl _)]

/-- A path by which a directory was removed leads nowhere. -/
theorem entryExists_of_removeDirectory (hremove : d.removeDirectory path = .ok d') :
    d'.entryExists path = false := by
  obtain ⟨parent, name, slash, htip, -, htree, -⟩ := removeDirectory_inv hremove
  refine (recedes_of_removeDirectory hremove).entryExists_eq_false htip ?_
  rw [htree, Node.kindAt_drop, if_pos (List.prefix_refl _)]

end Disk

/-! ## Removing what a path names -/

theorem run_change_eq_ok {path : String} {request : Disk → Except Errno Disk} {d d' : Disk}
    (hrun : (DiskM.change path request).run d = (.ok (), d')) : request d = .ok d' := by
  rw [run_change] at hrun
  split at hrun
  · cases hrun
  · cases hrequest : request d with
    | ok after =>
        rw [hrequest] at hrun
        cases hrun
        rfl
    | error code =>
        rw [hrequest] at hrun
        cases hrun

theorem removeAny_leaves_nothing {path : String} {d d' : Disk}
    (hrun : (DiskM.removeAny path).run d = (.ok (), d')) (hplain : ¬d.NamesSpecial path) :
    d'.entryExists path = false := by
  rw [run_removeAny] at hrun
  split at hrun
  · exact Disk.entryExists_of_unlink (run_change_eq_ok hrun)
  · next hother =>
      obtain ⟨hfile, hlink⟩ : d.isFile path = false ∧ d.isLink path = false := by
        simpa using hother
      split at hrun
      · next hdirectory =>
          have hnul := Disk.hasNul_of_isDirectory hdirectory
          rw [run_removeTree hnul] at hrun
          cases hstatus : d.status false path with
          | error code =>
              rw [hstatus] at hrun
              cases hrun
          | ok found =>
              rw [hstatus] at hrun
              dsimp only at hrun
              split at hrun
              · exact Disk.entryExists_of_removeDirectory (run_change_eq_ok hrun)
              · cases hrun
      · next hnone =>
          cases hrun
          rw [Bool.eq_false_iff]
          intro hexists
          exact hplain (Disk.namesSpecial_of_entryExists hexists hfile hlink (by simpa using hnone))

/-- A success is reported of an action that succeeded. -/
theorem run_of_reported_success {prefixed : String → DiskM String} {action : DiskM Report}
    {d d' : Disk} (hrun : (DiskM.reporting prefixed action).run d = (.ok .success, d')) :
    action.run d = (.ok .success, d') := by
  unfold DiskM.reporting at hrun
  rw [run_tryCatch] at hrun
  rcases haction : action.run d with ⟨failure | report, t⟩
  · rw [haction] at hrun
    dsimp only at hrun
    cases hreason : failure.reason? with
    | none =>
        rw [hreason] at hrun
        cases hrun
    | some reason =>
        rw [hreason] at hrun
        obtain ⟨text, u, -, hreport⟩ := run_bind_eq_ok hrun
        cases hreport
  · rw [haction] at hrun
    exact hrun

/-- The disk after a report is the one that the action has left. -/
theorem exists_run_of_reporting {prefixed : String → DiskM String} {action : DiskM Report}
    {d d' : Disk} {report : Except Failure Report}
    (hprefixed : ∀ reason, Respects Eq (prefixed reason))
    (hrun : (DiskM.reporting prefixed action).run d = (report, d')) :
    ∃ result, action.run d = (result, d') ∧ (report = .ok .success → result = .ok .success) := by
  have hafter := stateAfter_reporting hprefixed action d
  rw [stateAfter_of_run hrun] at hafter
  refine ⟨resultOf action d, by rw [run_eq action, ← hafter], ?_⟩
  rintro rfl
  rw [resultOf, run_of_reported_success hrun]

/-- A removal that succeeds has removed what the path names, and pruned what it was asked to. -/
theorem run_rm_eq_success {path : String} {prune : Bool} {d d' : Disk}
    (hrun : (DiskM.rm path prune).run d = (.ok .success, d')) :
    ∃ removed, (DiskM.removeAny path).run d = (.ok (), removed) ∧ removed.Recedes d' ∧
      (prune = false → d' = removed) := by
  obtain ⟨report, removed, hreported, hrest⟩ := run_bind_eq_ok hrun
  cases report with
  | refused message => cases hrest
  | success =>
      obtain ⟨_, t, hremoved, hpure⟩ := run_bind_eq_ok (run_of_reported_success hreported)
      cases hpure
      refine ⟨removed, hremoved, ?_, ?_⟩
      · cases prune with
        | false =>
            cases hrest
            exact isFrame_recedes.refl _
        | true =>
            have hprunes := respects_removeIfEmpty isFrame_recedes
              (fun _ _ _ => Disk.recedes_of_removeDirectory) (Path.parent (Path.normalize path))
            exact hprunes.of_run hrest
      · rintro rfl
        cases hrest
        rfl

namespace Act

/-- A removal that succeeds leaves nothing at the path, unless the path names a pipe or the null
device: these it leaves alone. -/
theorem rm_leaves_nothing (path : String) (m : Machine κ) :
    (¬m.disk.NamesSpecial path → ∀ prune, resultOf (rm path prune) m = .ok .success →
      (stateAfter (rm path prune) m).disk.entryExists path = false) ∧
      (m.disk.NamesSpecial path → (rm path false).run m = (.ok .success, m)) := by
  constructor
  · intro hplain prune hsuccess
    unfold rm at hsuccess ⊢
    rw [resultOf, run_onDisk] at hsuccess
    rw [stateAfter, run_onDisk]
    have hreport : resultOf (DiskM.rm path prune) m.disk = .ok .success := hsuccess
    have hrun := run_eq (DiskM.rm path prune) m.disk
    rw [hreport] at hrun
    obtain ⟨removed, hremoved, hrecedes, -⟩ := run_rm_eq_success hrun
    have hgone := removeAny_leaves_nothing hremoved hplain
    rw [Bool.eq_false_iff] at hgone ⊢
    exact fun hexists => hgone (hrecedes.entryExists hexists)
  · intro hspecial
    obtain ⟨hfile, hlink, hdirectory⟩ := hspecial.not_removable
    have hnothing : (DiskM.removeAny path).run m.disk = (.ok (), m.disk) := by
      rw [run_removeAny, hfile, hlink, hdirectory]
      rfl
    have hrm : (DiskM.rm path false).run m.disk = (.ok .success, m.disk) := by
      unfold DiskM.rm DiskM.reporting
      rw [run_bind, run_tryCatch, run_bind, hnothing]
      rfl
    unfold rm
    rw [run_onDisk, resultOf, stateAfter, hrm]

/-- A machine whose disk holds a pipe beside a directory with a file. -/
def pipeMachine : Machine Unit where
  disk :=
    { tree := .dir [("p", .pipe), ("d", .dir [("f", .file [] false none)] none)] none
      cwd := .root }
  environment := []

/-- The file is removed together with the directory above it; the pipe stays. -/
theorem rm_leaves_nothing_pipeMachine :
    (¬pipeMachine.disk.NamesSpecial "d/f" ∧
      resultOf (rm "d/f" true) pipeMachine = .ok .success ∧
        (stateAfter (rm "d/f" true) pipeMachine).disk.entryExists "d/f" = false) ∧
      pipeMachine.disk.NamesSpecial "p" ∧
        (rm "p" false).run pipeMachine = (.ok .success, pipeMachine) := by
  have hplain : ¬pipeMachine.disk.NamesSpecial "d/f" := by
    unfold Disk.NamesSpecial
    decide
  have hsuccess : resultOf (rm "d/f" true) pipeMachine = .ok .success := by decide
  have hspecial : pipeMachine.disk.NamesSpecial "p" := Or.inl (by decide)
  exact ⟨⟨hplain, hsuccess, (rm_leaves_nothing "d/f" pipeMachine).1 hplain true hsuccess⟩, hspecial,
    (rm_leaves_nothing "p" pipeMachine).2 hspecial⟩

/-- A removal of the pipe that succeeds, after which the pipe is still there. -/
theorem not_removed_pipe :
    resultOf (rm "p" false) pipeMachine = .ok .success ∧
      (stateAfter (rm "p" false) pipeMachine).disk.entryExists "p" = true := by
  decide

end Act

end BuildRunner
