import BuildRunner.Proofs.Disk.Nesting
import BuildRunner.Proofs.Files.Reporting

/-!
# Copies that end

A directory is listed before its copy is made, but below it a copy lists what it made itself if it
lands there.  Such a copy ends where its paths get too long.  A copy that lands beside its source, in
new directories of it or on one of its entries goes down no deeper than twice the source, and then
the call that started it ends with a report.
-/

namespace BuildRunner

/-- So many levels for nested calls are enough for the copy of a directory: more make no difference. -/
structure DiskM.EndsBy (levels : Nat) (source target : String) (d : Disk) : Prop where
  enough : resultOf (copyTreeFrom levels true source target) d ≠ .error (.outOfRange .nesting)
  settled : ∀ more, levels ≤ more →
    (copyTreeFrom more true source target).run d = (copyTreeFrom levels true source target).run d

section

variable {levels : Nat} {source target : String} {d : Disk}

theorem DiskM.endsBy_of_ne_nesting
    (henough : ∀ {result d'}, (copyTreeFrom levels true source target).run d = (result, d') →
      result ≠ .error (.outOfRange .nesting)) : EndsBy levels source target d := by
  rcases hrun : (copyTreeFrom levels true source target).run d with ⟨result, d'⟩
  refine ⟨by rw [resultOf_of_run hrun]; exact henough hrun, fun more hmore => ?_⟩
  rw [hrun]
  exact run_copyTreeFrom_of_le hrun (henough hrun) hmore

/-- A copy of a directory that ends by the limit to nested calls ends with a report. -/
theorem exists_report_copyOne (hproper : d.tree.Proper)
    (hcwd : d.tree.kindAt d.cwd.base = some .directory) (hsource : d.isDirectory source = true)
    (htarget : Disk.hasNul target = false)
    (hends : DiskM.EndsBy levels source (d.landing source target) d)
    (hlevels : levels ≤ DiskM.nestingLimit) :
    ∃ report, resultOf (DiskM.copyOne source target) d = .ok report := by
  rcases hrun : (DiskM.copyOne source target).run d with ⟨failure | report, d'⟩
  · rw [DiskM.run_copyOne] at hrun
    obtain ⟨hcopy, hfailure⟩ := DiskM.reporting_eq_error (fun reason d => ⟨_, rfl⟩) hrun
    unfold DiskM.copyTo at hcopy
    rw [run_bind, run_get] at hcopy
    dsimp only at hcopy
    have hfile : d.isFile source ≠ true := by
      rw [Ne, Disk.isFile_iff, (Disk.isDirectory_iff d source).mp hsource]
      simp
    rw [if_neg hfile, run_bind, run_get] at hcopy
    dsimp only at hcopy
    rw [if_pos hsource, run_bind] at hcopy
    rcases htree : (DiskM.copyTree true source (d.landing source target)).run d with ⟨other | _, t⟩
    · rw [htree] at hcopy
      cases hcopy
      obtain ⟨rfl, -⟩ := copyTree_eq_error hproper hcwd hsource (hasNul_landing d htarget) hfailure
        htree
      refine absurd ?_ hends.enough
      rw [resultOf, ← hends.settled _ hlevels]
      exact resultOf_of_run htree
    · rw [htree] at hcopy
      cases hcopy
  · exact ⟨report, resultOf_of_run hrun⟩

end

/-- The disk with one directory, once a directory is made in it. -/
theorem location_of_readied {location : Location} {kind : Kind}
    (hkind : (stateAfter (DiskM.makeDirectories true "d/e") Act.singleMachine.disk).tree.kindAt
      location = some kind) :
    location.length ≤ 2 ∧ kind = .directory := by
  have htree : (stateAfter (DiskM.makeDirectories true "d/e") Act.singleMachine.disk).tree =
      (Node.empty.put [] "d" .empty).put ["d"] "e" .empty := rfl
  rw [htree, Node.kindAt_put _ _ _ rfl rfl] at hkind
  split at hkind
  · next hinner =>
      cases hkind
      exact ⟨by rw [hinner.1]; decide, rfl⟩
  rw [Node.kindAt_put _ _ _ rfl rfl] at hkind
  split at hkind
  · next houter =>
      cases hkind
      exact ⟨by rw [houter.1]; decide, rfl⟩
  · cases location with
    | nil =>
        cases hkind
        exact ⟨Nat.zero_le _, rfl⟩
    | cons name rest => cases hkind

end BuildRunner
