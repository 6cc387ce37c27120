import BuildRunner.Proofs.Execution.Preparing
import BuildRunner.Task

/-!
# Chores

The file operations of tasks work on the tree and on the current directory.  They neither start nor
close anything, so that the books on handles and open files are the same afterwards.
-/

namespace BuildRunner

variable {κ : Type}

/-- There are as many indices of open files as before. -/
def Disk.SameIndices (d d' : Disk) : Prop := d'.files.length = d.files.length

theorem isFrame_sameIndices : IsFrame Disk.SameIndices where
  refl _ := rfl
  trans h h' := h'.trans h

/-! ## Making entries -/

theorem sameIndices_makeSpecial {d d' : Disk} {node : Node} {path : String}
    (hmake : d.makeSpecial node path = .ok d') : d.SameIndices d' := by
  unfold Disk.makeSpecial at hmake
  cases htip : d.tip path with
  | error code => simp [htip, bind, Except.bind] at hmake
  | ok found =>
      obtain ⟨parent, last⟩ := found
      rw [htip] at hmake
      cases last with
      | name name slash =>
          simp only [bind, Except.bind] at hmake
          cases hentry : d.entryAt parent name with
          | error code => simp [hentry] at hmake
          | ok found =>
              cases found with
              | some node => simp [hentry] at hmake
              | none =>
                  cases slash with
                  | true => simp [hentry] at hmake
                  | false =>
                      simp only [hentry, Bool.false_eq_true, if_false] at hmake
                      obtain ⟨-, rfl⟩ := Disk.create_inv hmake
                      rfl
      | _ => simp [bind, Except.bind] at hmake

theorem sameIndices_makeLink {d d' : Disk} {target path : String}
    (hmake : d.makeLink target path = .ok d') : d.SameIndices d' := by
  unfold Disk.makeLink at hmake
  split at hmake
  · simp at hmake
  · exact sameIndices_makeSpecial hmake

theorem sameIndices_store {d d' : Disk} {data : Text.Bytes} {path : String}
    (hstore : d.store data path = .ok d') : d.SameIndices d' := by
  unfold Disk.store at hstore
  cases hwritable : writable d.tree d.cwd path with
  | error code => simp [hwritable, bind, Except.bind] at hstore
  | ok found =>
      simp only [hwritable, bind, Except.bind] at hstore
      split at hstore
      · obtain ⟨-, rfl⟩ := Disk.create_inv hstore
        rfl
      · cases hstore
        rfl

theorem sameIndices_copyStatus {d d' : Disk} {source : Node} {path : String}
    (hcopy : d.copyStatus source path = .ok d') : d.SameIndices d' := by
  unfold Disk.copyStatus at hcopy
  cases hstatus : d.status true path with
  | error code => simp [hstatus, bind, Except.bind] at hcopy
  | ok found =>
      simp only [hstatus, bind, Except.bind] at hcopy
      split at hcopy
      · cases hcopy
        rfl
      · cases hcopy
        rfl

theorem respects_makeEntry (base : String) (entry : Entry) :
    Respects Disk.SameIndices (DiskM.makeEntry base entry) := by
  have hdirectories : ∀ path, Respects Disk.SameIndices (DiskM.makeDirectories true path) :=
    fun path => (respects_makeDirectories true path).mono fun _ _ hstays =>
      congrArg List.length hstays.files
  have hchange : ∀ (path : String) {request : Disk → Except Errno Disk},
      (∀ d d', request d = .ok d' → d.SameIndices d') →
        Respects Disk.SameIndices (DiskM.change path request) :=
    fun path _ hrequest => respects_change isFrame_sameIndices path fun d d' _ => hrequest d d'
  have hbelow : ∀ {rest : DiskM Unit} (parent : String), Respects Disk.SameIndices rest →
      Respects Disk.SameIndices (if (!parent.isEmpty) = true then do
        DiskM.makeDirectories true parent
        rest
      else rest) := by
    intro rest parent hrest
    split
    · exact respects_bind isFrame_sameIndices (hdirectories _) fun _ => hrest
    · exact hrest
  obtain ⟨relative, node⟩ := entry
  have hspecial : ∀ path, Respects Disk.SameIndices
      (DiskM.change path fun d => d.makeSpecial node path) :=
    fun path => hchange path fun _ _ => sameIndices_makeSpecial
  unfold DiskM.makeEntry
  cases node with
  | dir entries modified => exact hdirectories _
  | file data executable modified =>
      refine hbelow _ (respects_bind isFrame_sameIndices ?_ fun _ => ?_)
      · exact hchange _ fun _ _ => sameIndices_store
      · exact hchange _ fun _ _ => sameIndices_copyStatus
  | link target => exact hbelow _ (hchange _ fun _ _ => sameIndices_makeLink)
  | _ => exact hbelow _ (hspecial _)

theorem respects_makeEntries (base : String) (entries : List Entry) :
    Respects Disk.SameIndices (DiskM.makeEntries base entries) := by
  refine respects_bind isFrame_sameIndices
    (respects_forM isFrame_sameIndices fun entry _ => respects_makeEntry base entry) fun _ => ?_
  refine respects_forM isFrame_sameIndices fun entry _ => ?_
  unfold DiskM.dateEntry
  dsimp only
  split
  · exact respects_change isFrame_sameIndices _ fun _ _ _ => sameIndices_copyStatus
  · exact respects_pure isFrame_sameIndices _

/-! ## Removing and changing directory -/

theorem respects_reporting {R : Disk → Disk → Prop} (hR : IsFrame R)
    {prefixed : String → DiskM String} {action : DiskM Report}
    (hprefixed : ∀ reason, Respects R (prefixed reason)) (haction : Respects R action) :
    Respects R (DiskM.reporting prefixed action) := by
  refine respects_tryCatch hR haction fun failure => ?_
  split
  · exact respects_bind hR (hprefixed _) fun _ => respects_pure hR _
  · exact respects_throw hR _

theorem respects_rm_prune (path : String) (prune : Bool) :
    Respects Disk.Fades (DiskM.rm path prune) := by
  have hremove : Respects Disk.Fades (do DiskM.removeAny path; return Report.success) :=
    respects_bind isFrame_fades (respects_removeAny path) fun _ => respects_pure isFrame_fades _
  unfold DiskM.rm
  refine respects_bind isFrame_fades (respects_reporting isFrame_fades ?_ hremove) fun removed => ?_
  · exact fun _ => respects_bind isFrame_fades (respects_kindOf isFrame_fades path) fun _ =>
      respects_pure isFrame_fades _
  · split
    · split
      · exact respects_removeIfEmpty isFrame_fades (fun _ _ _ => Disk.fades_of_removeDirectory) _
      · exact respects_pure isFrame_fades _
    · exact respects_pure isFrame_fades _

namespace Act

section

variable {R : Machine κ → Machine κ → Prop} (hR : IsFrame R)
  (hfiling : ∀ {m m'}, Filing Disk.SameIndices m m' → R m m')
  (hprevious : ∀ (m : Machine κ) (previous : Option String), R m { m with previous })

include hR hfiling hprevious

theorem respects_cdTo (target : String) : Respects R (cdTo target : Act κ Report) := by
  have hchange : Respects Disk.SameIndices (DiskM.reporting
      (fun reason => return "cannot change directory " ++ target ++ " " ++ reason)
      do
        DiskM.change target fun d => d.changeDirectory target
        return .success) := by
    refine respects_reporting isFrame_sameIndices (fun _ => respects_pure isFrame_sameIndices _) ?_
    refine respects_bind isFrame_sameIndices ?_ fun _ => respects_pure isFrame_sameIndices _
    exact respects_change isFrame_sameIndices target fun _ _ _ hchange =>
      congrArg List.length (moves_of_changeDirectory hchange).files
  have hreport : Respects R (onDisk (DiskM.reporting
      (fun reason => return "cannot change directory " ++ target ++ " " ++ reason)
      do
        DiskM.change target fun d => d.changeDirectory target
        return .success) : Act κ Report) :=
    (respects_onDisk hchange).mono fun _ _ => hfiling
  have hcurrent : Respects R (currentPath : Act κ String) :=
    respects_currentPath.mono fun _ _ hquiet => hfiling (.of_quiet isFrame_sameIndices hquiet)
  unfold cdTo
  refine respects_bind hR (respects_get hR) fun m => ?_
  split
  · exact respects_pure hR _
  · refine respects_bind hR hcurrent fun current => ?_
    refine respects_bind hR hreport fun report => ?_
    split
    · exact respects_bind hR (fun m => hprevious m _) fun _ => respects_pure hR _
    · exact respects_pure hR _

theorem respects_cd (directory : String) : Respects R (cd directory : Act κ Report) := by
  have hto : ∀ target, Respects R (cdTo target : Act κ Report) :=
    respects_cdTo hR hfiling hprevious
  unfold cd
  split
  · exact respects_pure hR _
  · refine respects_bind hR (respects_get hR) fun m => ?_
    dsimp only
    split
    · exact respects_pure hR _
    · split
      · exact respects_bind hR (fun m => hprevious m _) fun _ => hto _
      · exact hto _

theorem respects_runChore (chore : Chore) : Respects R (runChore chore : Act κ Unit) := by
  cases chore with
  | enter directory =>
      refine (respects_enter directory).mono fun _ _ henter => hfiling { henter with disk := ?_ }
      exact congrArg List.length henter.disk.files
  | cd directory => exact respects_map (respects_cd hR hfiling hprevious directory) _
  | rm path prune =>
      refine respects_map ((respects_onDisk (respects_rm_prune path prune)).mono ?_) _
      exact fun _ _ hrm => hfiling { hrm with disk := hrm.disk.files }
  | make base entry =>
      exact (respects_onDisk (respects_makeEntries base [entry])).mono fun _ _ => hfiling

end

theorem sameBooks_runChore (chore : Chore) : Respects SameBooks (runChore chore : Act κ Unit) :=
  respects_runChore isFrame_sameBooks (fun hfiling => .of_filing hfiling hfiling.disk.ge)
    (fun _ _ => ⟨rfl, rfl, rfl, Nat.le_refl _⟩) chore

end Act

end BuildRunner
