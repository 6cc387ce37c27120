import BuildRunner.Proofs.Execution.Ending

/-!
# Changing directory

`cd` goes to the directory that it is asked for and remembers the one before, or it stays where it
is.  The remembered directory is taken before it is known whether it is still there: a `cd -` that
is refused has forgotten it.
-/

namespace BuildRunner

variable {κ : Type}

namespace Machine

/-- The directory that `cd` is asked for; `-` stands for the remembered one. -/
def wanted? (m : Machine κ) (directory : String) : Option String :=
  if directory = "" then none
  else if directory = "-" then m.previous
  else some directory

/-- The machine once the remembered directory has been taken, if it is asked for. -/
def recalled (m : Machine κ) (directory : String) : Machine κ :=
  if directory = "-" then { m with previous := none } else m

/-- The machine in another directory, with the path of the one before. -/
def movedTo (m : Machine κ) (place : Place) (left : String) : Machine κ :=
  { m with disk := { m.disk with cwd := place }, previous := some left }

theorem disk_recalled (m : Machine κ) (directory : String) : (m.recalled directory).disk = m.disk := by
  unfold recalled
  split
  · rfl
  · rfl

theorem movedTo_recalled (m : Machine κ) (directory : String) (place : Place) (left : String) :
    (m.recalled directory).movedTo place left = m.movedTo place left := by
  unfold recalled
  split
  · rfl
  · rfl

end Machine

namespace Act

theorem run_cdTo_of_missing {target : String} {m : Machine κ}
    (hmissing : m.disk.isDirectory target = false) :
    (cdTo target : Act κ Report).run m =
      (.ok (.refused ("cannot change directory " ++ target ++ ", not found this directory")), m) := by
  unfold cdTo
  rw [run_bind, run_get]
  dsimp only
  rw [hmissing]
  rfl

/-- Where the target is a directory the change depends on the path of the current one only. -/
theorem run_cdTo_of_directory {target : String} {m : Machine κ} {place : Place}
    (hnul : Disk.hasNul target = false) (hdirectory : m.disk.isDirectory target = true)
    (hlocate : m.disk.locate true target = .ok (.directory place)) :
    (cdTo target : Act κ Report).run m =
      match m.disk.currentPath with
      | .ok current => (.ok .success, m.movedTo place current)
      | .error code => (.error (.system code none none), m) := by
  have hchange : m.disk.changeDirectory target = .ok { m.disk with cwd := place } := by
    rw [Disk.changeDirectory, hlocate]
    rfl
  have hreport : (DiskM.reporting
      (fun reason => return "cannot change directory " ++ target ++ " " ++ reason)
      do
        DiskM.change target fun d => d.changeDirectory target
        return .success).run m.disk = (.ok .success, { m.disk with cwd := place }) := by
    unfold DiskM.reporting
    rw [run_tryCatch, run_bind, run_change, hnul, if_neg (by decide), hchange]
    rfl
  unfold cdTo
  rw [run_bind, run_get]
  dsimp only
  rw [hdirectory, Bool.not_true, if_neg (by decide), run_bind, run_currentPath]
  cases m.disk.currentPath with
  | error code => rfl
  | ok current =>
      dsimp only
      rw [run_bind, run_onDisk, resultOf_of_run hreport, stateAfter_of_run hreport]
      rfl

/-- The change goes to the target and remembers the way back, or leaves the machine as it is. -/
theorem cdTo_cases (target : String) (m : Machine κ) :
    (∃ current place, m.disk.currentPath = .ok current ∧
        m.disk.locate true target = .ok (.directory place) ∧ m.disk.isDirectory target = true ∧
          (cdTo target : Act κ Report).run m = (.ok .success, m.movedTo place current)) ∨
      (m.disk.isDirectory target = true → ∀ current, m.disk.currentPath ≠ .ok current) ∧
        ∃ result, result ≠ .ok .success ∧ (cdTo target : Act κ Report).run m = (result, m) := by
  cases hdirectory : m.disk.isDirectory target with
  | false =>
      refine Or.inr ⟨fun hthere => ?_, _, ?_, run_cdTo_of_missing hdirectory⟩
      · cases hthere
      · simp
  | true =>
      obtain ⟨place, hlocate⟩ := Disk.exists_place_of_isDirectory hdirectory
      have hrun := run_cdTo_of_directory (Disk.hasNul_of_isDirectory hdirectory) hdirectory hlocate
      cases hcurrent : m.disk.currentPath with
      | ok current =>
          rw [hcurrent] at hrun
          exact Or.inl ⟨current, place, rfl, hlocate, rfl, hrun⟩
      | error code =>
          rw [hcurrent] at hrun
          refine Or.inr ⟨fun _ current hsame => ?_, _, ?_, hrun⟩
          · cases hsame
          · simp

theorem run_cd (directory : String) (m : Machine κ) :
    (cd directory : Act κ Report).run m =
      match m.wanted? directory with
      | some target => (cdTo target).run (m.recalled directory)
      | none =>
        (.ok (.refused (if directory = "" then "cannot change directory: no directory given"
          else "not found the previous directory")), m.recalled directory) := by
  unfold cd Machine.wanted? Machine.recalled
  by_cases hempty : directory = ""
  · subst hempty
    rfl
  · have hgiven : directory.isEmpty = false := by simpa using hempty
    rw [hgiven, if_neg (by decide), run_bind, run_get]
    simp only [if_neg hempty]
    by_cases hdash : directory = "-"
    · subst hdash
      obtain ⟨disk, environment, previous⟩ := m
      cases previous with
      | none => rfl
      | some previous => rfl
    · simp [hdash]

/-- A change of directory goes to the wanted one and remembers the one before.  In all other cases
the current directory stays, and so does the remembered one unless it was asked for. -/
theorem cd_moves_or_stays (directory : String) (m : Machine κ) :
    (∃ target current place, m.wanted? directory = some target ∧
        m.disk.currentPath = .ok current ∧ m.disk.isDirectory target = true ∧
          m.disk.locate true target = .ok (.directory place) ∧
            (cd directory).run m = (.ok .success, m.movedTo place current)) ∨
      (∀ target current, m.wanted? directory = some target → m.disk.currentPath = .ok current →
          m.disk.isDirectory target = false) ∧
        resultOf (cd directory) m ≠ .ok .success ∧
          stateAfter (cd directory) m = m.recalled directory := by
  have hrun := run_cd directory m
  cases hwanted : m.wanted? directory with
  | none =>
      rw [hwanted] at hrun
      refine Or.inr ⟨?_, ?_, stateAfter_of_run hrun⟩
      · intro target _ htarget
        cases htarget
      · rw [resultOf_of_run hrun]
        simp
  | some target =>
      rw [hwanted] at hrun
      dsimp only at hrun
      have hdisk := m.disk_recalled directory
      rcases cdTo_cases target (m.recalled directory) with
        ⟨current, place, hcurrent, hlocate, hdirectory, hmoved⟩ | ⟨hrefused, result, hresult, hsame⟩
      · rw [hmoved, Machine.movedTo_recalled] at hrun
        rw [hdisk] at hcurrent hlocate hdirectory
        exact Or.inl ⟨target, current, place, rfl, hcurrent, hdirectory, hlocate, hrun⟩
      · rw [hsame] at hrun
        rw [hdisk] at hrefused
        refine Or.inr ⟨fun other current hother hcurrent => ?_, ?_, stateAfter_of_run hrun⟩
        · rw [Option.some.injEq] at hother
          subst other
          rw [← Bool.not_eq_true]
          exact fun hdirectory => hrefused hdirectory current hcurrent
        · rw [resultOf_of_run hrun]
          exact hresult

/-- A machine with one empty directory. -/
def singleMachine : Machine Unit where
  disk := { tree := .dir [("d", .dir [] none)] none, cwd := .root }
  environment := []

/-- The machine that has been in its one directory, which is removed by now. -/
def bereftMachine : Machine Unit :=
  stateAfter (do
    let _ ← cd "d"
    let _ ← cd ".."
    let _ ← rm "/d" false) singleMachine

/-- The refused way back to a directory that is gone forgets it. -/
theorem not_remembered_bereftMachine :
    bereftMachine.previous = some "/d" ∧
      resultOf (cd "-") bereftMachine =
        .ok (.refused "cannot change directory /d, not found this directory") ∧
      (stateAfter (cd "-") bereftMachine).previous = none := by
  refine ⟨by rfl, by rfl, by rfl⟩

end Act

end BuildRunner
