import BuildRunner.Proofs.Disk.Growing

/-!
# Copying files and directories

A copy fails with something that the file helpers report, unless it goes down too many directories;
then there are as many directories, one in the other.  Whatever it ends with, the disk has grown.
-/

namespace BuildRunner

open BuildRunner.Text (Bytes)

/-! ## Actions that ask and change -/

/-- A failure that is reported and says what went wrong. -/
structure IsFault (failure : Failure) : Prop where
  reported : IsReported failure
  telling : failure ≠ .copyFaults []

theorem isFault_system (code : Errno) (path target : Option String) :
    IsFault (.system code path target) := ⟨rfl, by simp⟩

theorem not_isFault_nesting : ¬IsFault (.outOfRange .nesting) := fun hfault => by
  simpa [IsReported, Failure.reason?] using hfault.reported

section

variable {I : Disk → Prop}

theorem endsWith_ask {α : Type} {path : String} {question : Disk → Except Errno α} {Q : α → Prop}
    (hnul : Disk.hasNul path = false) (hanswer : ∀ d a, I d → question d = .ok a → Q a) :
    EndsWith I Q IsFault (DiskM.ask path question) := by
  intro d hd
  rw [stateAfter, resultOf, run_ask, hnul, if_neg (by decide)]
  refine ⟨hd, ?_⟩
  cases hquestion : question d with
  | ok a => exact hanswer d a hd hquestion
  | error code => exact isFault_system code _ _

theorem endsWith_change {path : String} {request : Disk → Except Errno Disk}
    (hnul : Disk.hasNul path = false) (hrequest : ∀ d d', I d → request d = .ok d' → I d') :
    EndsWith I (fun _ => True) IsFault (DiskM.change path request) := by
  intro d hd
  rw [stateAfter, resultOf, run_change, hnul, if_neg (by decide)]
  cases hafter : request d with
  | ok d' => exact ⟨hrequest d d' hd hafter, trivial⟩
  | error code => exact ⟨hd, isFault_system code _ _⟩

theorem run_change₂ (path target : String) (request : Disk → Except Errno Disk) (d : Disk) :
    (DiskM.change₂ path target request).run d =
      if Disk.hasNul path || Disk.hasNul target then (.error .nullByte, d)
      else
        match request d with
        | .ok d' => (.ok ⟨⟩, d')
        | .error code => (.error (.system code (some path) (some target)), d) := by
  unfold DiskM.change₂
  cases Disk.hasNul path || Disk.hasNul target with
  | true => rfl
  | false =>
      simp only [Bool.false_eq_true, if_false]
      rw [run_bind, run_get]
      dsimp only
      cases request d with
      | ok d' => rfl
      | error code => rfl

theorem endsWith_change₂ {path target : String} {request : Disk → Except Errno Disk}
    (hpath : Disk.hasNul path = false) (htarget : Disk.hasNul target = false)
    (hrequest : ∀ d d', I d → request d = .ok d' → I d') :
    EndsWith I (fun _ => True) IsFault (DiskM.change₂ path target request) := by
  intro d hd
  rw [stateAfter, resultOf, run_change₂, hpath, htarget, if_neg (by decide)]
  cases hafter : request d with
  | ok d' => exact ⟨hrequest d d' hd hafter, trivial⟩
  | error code => exact ⟨hd, isFault_system code _ _⟩

end

section

variable {d₀ : Disk}

theorem endsWith_makeDirectoriesFrom (existOk : Bool) (fuel : Nat) {path : String}
    (hpath : Disk.hasNul path = false) :
    EndsWith d₀.GrownFrom (fun _ => True) IsFault
      (DiskM.makeDirectoriesFrom existOk fuel path) := by
  induction fuel generalizing path with
  | zero => exact endsWith_pure trivial
  | succ fuel ih =>
      have hmake : EndsWith d₀.GrownFrom (fun _ => True) IsFault (do
          try DiskM.change path fun d => d.makeDirectory path
          catch failure =>
            if failure.isSystem && existOk && (← get).isDirectory path then pure ()
            else throw failure : DiskM Unit) := by
        refine endsWith_tryCatch (endsWith_change hpath fun d d' hd hmake =>
          hd.trans (Disk.grows_of_makeDirectory hpath hmake)) fun failure hfailure => ?_
        refine endsWith_bind endsWith_get fun d _ => ?_
        split
        · exact endsWith_pure trivial
        · exact endsWith_throw hfailure
      have hrest : ∀ done : Bool, EndsWith d₀.GrownFrom (fun _ => True) IsFault
          (if done then pure () else
            try DiskM.change path fun d => d.makeDirectory path
            catch failure =>
              if failure.isSystem && existOk && (← get).isDirectory path then pure ()
              else throw failure : DiskM Unit) := by
        intro done
        cases done with
        | true => exact endsWith_pure trivial
        | false => exact hmake
      have habove := ih (hasNul_of_front (prefix_splitLast path) hpath)
      unfold DiskM.makeDirectoriesFrom
      generalize DiskM.splitLast path = parts at habove
      obtain ⟨head, tail⟩ := parts
      dsimp only at habove ⊢
      refine endsWith_bind endsWith_get fun d _ => ?_
      split
      · refine endsWith_bind (endsWith_tryCatch habove fun failure hfailure => ?_) fun _ _ =>
          hrest _
        split
        · exact endsWith_pure trivial
        · exact endsWith_throw hfailure
      · exact hrest _

theorem endsWith_makeDirectories (existOk : Bool) {path : String}
    (hpath : Disk.hasNul path = false) :
    EndsWith d₀.GrownFrom (fun _ => True) IsFault (DiskM.makeDirectories existOk path) :=
  endsWith_makeDirectoriesFrom existOk _ hpath

/-! ## Copying files -/

theorem endsWith_sameEntry {a b : String} (ha : Disk.hasNul a = false)
    (hb : Disk.hasNul b = false) :
    EndsWith d₀.GrownFrom (fun _ => True) IsFault (DiskM.sameEntry a b) := by
  unfold DiskM.sameEntry
  rw [ha, hb]
  refine endsWith_bind endsWith_get fun d _ => ?_
  split
  · exact endsWith_pure trivial
  · exact endsWith_pure trivial

theorem endsWith_refusePipe (path : String) :
    EndsWith d₀.GrownFrom (fun _ => True) IsFault (DiskM.refusePipe path) := by
  refine endsWith_bind endsWith_get fun d _ => ?_
  split
  · exact endsWith_throw ⟨rfl, by simp⟩
  · exact endsWith_pure trivial

theorem endsWith_copyBytes {source : DiskM.CopySource} {target : String}
    (hsource : Disk.hasNul source.path = false) (htarget : Disk.hasNul target = false) :
    EndsWith d₀.GrownFrom (fun _ => True) IsFault (DiskM.copyBytes source target) := by
  unfold DiskM.copyBytes
  refine endsWith_bind (endsWith_sameEntry hsource htarget) fun same _ => ?_
  split
  · exact endsWith_bind (Q := fun _ => False) (endsWith_throw ⟨rfl, by simp⟩) fun _ hnever => hnever.elim
  refine endsWith_bind (endsWith_refusePipe source.path) fun _ _ => ?_
  refine endsWith_bind (endsWith_refusePipe target) fun _ _ => ?_
  refine endsWith_bind (endsWith_ask (Q := fun _ => True) hsource fun _ _ _ _ => trivial)
    fun data _ => ?_
  refine endsWith_tryCatch (endsWith_change htarget fun d d' hd hstore =>
    hd.trans (Disk.grows_of_store htarget hstore)) fun failure hfailure => ?_
  split
  · refine endsWith_bind endsWith_get fun d _ => ?_
    split
    · exact endsWith_throw hfailure
    · exact endsWith_throw ⟨rfl, by simp⟩
  · exact endsWith_throw hfailure

theorem endsWith_copyStatus {source target : String} (hsource : Disk.hasNul source = false)
    (htarget : Disk.hasNul target = false) :
    EndsWith d₀.GrownFrom (fun _ => True) IsFault (DiskM.copyStatus source target) := by
  unfold DiskM.copyStatus
  refine endsWith_bind (endsWith_ask (Q := fun _ => True) hsource fun _ _ _ _ => trivial)
    fun found _ => ?_
  obtain ⟨place, node⟩ := found
  rw [htarget]
  refine endsWith_bind endsWith_get fun d hd => ?_
  cases hcopy : d.copyStatus node target with
  | ok d' => exact endsWith_set (hd.trans (Disk.grows_of_copyStatus hcopy))
  | error code => exact endsWith_throw (isFault_system code _ _)

theorem endsWith_copyFile {source : DiskM.CopySource} {target : String}
    (hsource : Disk.hasNul source.path = false) (htarget : Disk.hasNul target = false) :
    EndsWith d₀.GrownFrom (fun _ => True) IsFault (DiskM.copyFile source target) := by
  unfold DiskM.copyFile
  refine endsWith_bind endsWith_get fun d _ => ?_
  have hinside : Disk.hasNul (if d.isDirectory target = true then
      Path.join target (Path.name source.path) else target) = false := by
    split
    · exact hasNul_join htarget (hasNul_name hsource)
    · exact htarget
  exact endsWith_bind (endsWith_copyBytes hsource hinside) fun _ _ =>
    endsWith_copyStatus hsource hinside

/-! ## Copying directories -/

end

namespace DiskM

/-- Copies what one entry of a listed directory stands for. -/
def copyEntry (levels : Nat) (existOk : Bool) (source target name : String) : Node → DiskM Unit
  | .link _ => do
    let linked ← ask (Path.join source name) fun d => d.readLink (Path.join source name)
    change₂ linked (Path.join target name) fun d => d.makeLink linked (Path.join target name)
  | .dir .. => copyTreeFrom levels existOk (Path.join source name) (Path.join target name)
  | _ => copyFile (.ofEntry source name) (Path.join target name)

/-- Copies listed entries into a directory that is there, and gives the faults. -/
def copyEntries (levels : Nat) (existOk : Bool) (source target : String) (faults : List CopyFault)
    (entries : Node.Entries) : DiskM (List CopyFault) :=
  entries.foldlM (fun faults (name, entry) => do
    let more ← collect (Path.join source name) (Path.join target name)
      (copyEntry levels existOk source target name entry)
    pure (faults ++ more)) faults

/-- Copies the status of a directory, and fails if there are faults. -/
def finishCopy (source target : String) (faults : List CopyFault) : DiskM Unit := do
  let more ← collect source target (copyStatus source target)
  if !(faults ++ more).isEmpty then throw (.copyFaults (faults ++ more))

/-- Copies what a listed directory holds, and then its status, into a directory that is there. -/
def copyInto (levels : Nat) (existOk : Bool) (source target : String) (entries : Node.Entries) :
    DiskM Unit := do
  let faults ← copyEntries levels existOk source target [] entries
  finishCopy source target faults

theorem copyTreeFrom_zero (existOk : Bool) (source target : String) :
    copyTreeFrom 0 existOk source target = throw (.outOfRange .nesting) := by
  rw [copyTreeFrom]

theorem copyTreeFrom_succ (levels : Nat) (existOk : Bool) (source target : String) :
    copyTreeFrom (levels + 1) existOk source target = (do
      let (_, node) ← ask source fun d => d.status true source
      if !node.isDir then throw (.system .notDirectory (some source) none)
      makeDirectories existOk target
      copyInto levels existOk source target node.entries) := by
  rw [copyTreeFrom]
  rfl

theorem run_collect (source target : String) (action : DiskM Unit) (d : Disk) :
    (collect source target action).run d =
      match action.run d with
      | (.ok _, d') => (.ok [], d')
      | (.error failure, d') =>
        if failure.isSystem then (.ok (faultsOf source target failure), d')
        else (.error failure, d') := by
  unfold collect
  rw [run_tryCatch, run_bind]
  rcases action.run d with ⟨failure | _, d'⟩
  · dsimp only
    split
    · rfl
    · rfl
  · rfl

theorem run_copyEntries_cons (levels : Nat) (existOk : Bool) (source target : String)
    (faults : List CopyFault) (name : String) (entry : Node) (entries : Node.Entries) (d : Disk) :
    (copyEntries levels existOk source target faults ((name, entry) :: entries)).run d =
      match (copyEntry levels existOk source target name entry).run d with
      | (.ok _, d') => (copyEntries levels existOk source target faults entries).run d'
      | (.error failure, d') =>
        if failure.isSystem then
          (copyEntries levels existOk source target
            (faults ++ faultsOf (Path.join source name) (Path.join target name) failure)
            entries).run d'
        else (.error failure, d') := by
  unfold copyEntries
  rw [List.foldlM_cons, run_bind, run_bind, run_collect]
  rcases (copyEntry levels existOk source target name entry).run d with ⟨failure | _, d'⟩
  · dsimp only
    cases failure.isSystem with
    | true => rfl
    | false => rfl
  · dsimp only
    rw [List.append_nil]
    rfl

end DiskM

/-- The failures of a copy: those that are reported, and that of calls nested too deep. -/
def IsCopyFailure (failure : Failure) : Prop :=
  IsFault failure ∨ failure = .outOfRange .nesting

section

variable {d₀ : Disk}

theorem endsWith_collect {I : Disk → Prop} {P : Failure → Prop} {source target : String}
    {action : DiskM Unit} (haction : EndsWith I (fun _ => True) P action) :
    EndsWith I (fun _ => True) (fun failure => P failure ∧ ¬IsReported failure)
      (DiskM.collect source target action) := by
  unfold DiskM.collect
  refine endsWith_tryCatch (endsWith_bind haction fun _ _ => endsWith_pure trivial)
    fun failure hfailure => ?_
  split
  · exact endsWith_pure trivial
  · next hother => exact endsWith_throw ⟨hfailure, hother⟩

theorem isAccepted_of_mem_entries {d : Disk} (htree : d.tree.Proper) {follow : Bool}
    {path : String} {place : Place} {node : Node}
    (hstatus : d.status follow path = .ok (place, node)) :
    ∀ entry ∈ node.entries, IsAccepted entry.1 := by
  intro entry hentry
  rcases Disk.get?_or_empty_of_status hstatus with ⟨-, hget⟩ | rfl
  · have hfound := htree.get?_of_mem hget hentry
    exact htree.accepted _ _ (by rw [Node.kindAt, hfound]; rfl) entry.1 (by simp)
  · cases hentry

theorem Disk.readLink_inv {d : Disk} {path target : String} (hread : d.readLink path = .ok target) :
    ∃ place, d.status false path = .ok (place, .link target) := by
  unfold Disk.readLink at hread
  cases hstatus : d.status false path with
  | error code => simp [hstatus, bind, Except.bind] at hread
  | ok found =>
      obtain ⟨place, node⟩ := found
      cases node with
      | link linked =>
          simp only [hstatus, bind, Except.bind, Except.ok.injEq] at hread
          exact ⟨place, by rw [hread]⟩
      | _ => simp [hstatus, bind, Except.bind] at hread

theorem hasNul_of_readLink {d : Disk} (htree : d.tree.Proper) {path target : String}
    (hread : d.readLink path = .ok target) : Disk.hasNul target = false := by
  obtain ⟨place, hstatus⟩ := Disk.readLink_inv hread
  rcases Disk.get?_or_empty_of_status hstatus with ⟨-, hget⟩ | hempty
  · refine htree.targets place.base target ?_
    rw [Node.kindAt, hget]
    rfl
  · cases hempty

section

variable {levels : Nat} {existOk : Bool}
  (htrees : ∀ {source target : String}, Disk.hasNul source = false → Disk.hasNul target = false →
    EndsWith d₀.GrownFrom (fun _ => True) IsCopyFailure
      (DiskM.copyTreeFrom levels existOk source target))
  {source target : String} (hsource : Disk.hasNul source = false)
  (htarget : Disk.hasNul target = false)

include htrees hsource htarget

omit htrees in
/-- The copy of an entry that is no directory takes requests only, each of which is reported. -/
theorem endsWith_copyEntry_of_kind {name : String} (hname : IsAccepted name) {entry : Node}
    (hentry : entry.kind ≠ .directory) :
    EndsWith d₀.GrownFrom (fun _ => True) IsFault
      (DiskM.copyEntry levels existOk source target name entry) := by
  have horigin := hasNul_join hsource hname.hasNul
  have hcopy := hasNul_join htarget hname.hasNul
  have hlisted : Disk.hasNul (DiskM.CopySource.ofEntry source name).path = false := horigin
  cases entry with
  | link linked =>
      refine endsWith_bind (endsWith_ask horigin fun d linked hd hread =>
        hasNul_of_readLink hd.proper hread) fun linked hlinked => ?_
      exact endsWith_change₂ hlinked hcopy fun d d' hd hmake =>
        hd.trans (Disk.grows_of_makeLink hlinked hcopy hmake)
  | dir es modified => exact absurd rfl hentry
  | file data executable modified => exact endsWith_copyFile hlisted hcopy
  | pipe => exact endsWith_copyFile hlisted hcopy
  | null => exact endsWith_copyFile hlisted hcopy

theorem endsWith_copyEntry {name : String} (hname : IsAccepted name) (entry : Node) :
    EndsWith d₀.GrownFrom (fun _ => True) IsCopyFailure
      (DiskM.copyEntry levels existOk source target name entry) := by
  by_cases hentry : entry.kind = .directory
  · cases entry with
    | dir es modified =>
        exact htrees (hasNul_join hsource hname.hasNul) (hasNul_join htarget hname.hasNul)
    | _ => cases hentry
  · exact (endsWith_copyEntry_of_kind hsource htarget hname hentry).mono (fun _ h => h)
      fun _ => Or.inl

theorem endsWith_copyEntries (faults : List CopyFault) {entries : Node.Entries}
    (hentries : ∀ entry ∈ entries, IsAccepted entry.1) :
    EndsWith d₀.GrownFrom (fun _ => True) IsCopyFailure
      (DiskM.copyEntries levels existOk source target faults entries) := by
  induction entries generalizing faults with
  | nil => exact endsWith_pure trivial
  | cons entry entries ih =>
      obtain ⟨name, node⟩ := entry
      have hfirst := endsWith_copyEntry htrees hsource htarget
        (hentries (name, node) List.mem_cons_self) node
      unfold DiskM.copyEntries at ih ⊢
      rw [List.foldlM_cons]
      refine endsWith_bind (Q := fun _ => True) ?_ fun faults _ =>
        ih faults fun other hother => hentries other (List.mem_cons_of_mem _ hother)
      exact endsWith_bind ((endsWith_collect hfirst).mono (fun _ h => h) fun _ h => h.1)
        fun _ _ => endsWith_pure trivial

omit htrees in
theorem endsWith_finishCopy (faults : List CopyFault) :
    EndsWith d₀.GrownFrom (fun _ => True) IsFault (DiskM.finishCopy source target faults) := by
  refine endsWith_bind ((endsWith_collect (endsWith_copyStatus hsource htarget)).mono
    (fun _ h => h) fun _ h => h.1) fun more _ => ?_
  split
  · exact endsWith_throw ⟨rfl, by simp_all⟩
  · exact endsWith_pure trivial

theorem endsWith_copyInto {entries : Node.Entries}
    (hentries : ∀ entry ∈ entries, IsAccepted entry.1) :
    EndsWith d₀.GrownFrom (fun _ => True) IsCopyFailure
      (DiskM.copyInto levels existOk source target entries) :=
  endsWith_bind (endsWith_copyEntries htrees hsource htarget [] hentries) fun faults _ =>
    (endsWith_finishCopy hsource htarget faults).mono (fun _ h => h) fun _ => Or.inl

end

theorem endsWith_copyTreeFrom (levels : Nat) (existOk : Bool) {source target : String}
    (hsource : Disk.hasNul source = false) (htarget : Disk.hasNul target = false) :
    EndsWith d₀.GrownFrom (fun _ => True) IsCopyFailure
      (DiskM.copyTreeFrom levels existOk source target) := by
  induction levels generalizing source target with
  | zero =>
      rw [DiskM.copyTreeFrom_zero]
      exact endsWith_throw (Or.inr rfl)
  | succ levels ih =>
      rw [DiskM.copyTreeFrom_succ]
      have hmade : EndsWith d₀.GrownFrom (fun _ => True) IsCopyFailure
          (DiskM.makeDirectories existOk target) :=
        (endsWith_makeDirectories existOk htarget).mono (fun _ h => h) fun _ => Or.inl
      have hasked : EndsWith d₀.GrownFrom
          (fun found : Place × Node => ∀ entry ∈ found.2.entries, IsAccepted entry.1)
          IsCopyFailure (DiskM.ask source fun d => d.status true source) :=
        (endsWith_ask hsource fun d found hd hstatus =>
          isAccepted_of_mem_entries hd.proper hstatus).mono (fun _ h => h) fun _ => Or.inl
      refine endsWith_bind hasked fun found hentries => ?_
      obtain ⟨place, node⟩ := found
      have hrest := endsWith_bind hmade fun _ _ =>
        endsWith_copyInto ih hsource htarget hentries
      dsimp only
      split
      · exact endsWith_bind (Q := fun _ => True) (endsWith_throw (Or.inl (isFault_system _ _ _))) fun _ _ => hrest
      · exact hrest

end

/-! ## Directories that are nested too deep -/

theorem Disk.GrownFrom.self {d : Disk} (hproper : d.tree.Proper) : d.GrownFrom d :=
  ⟨isFrame_diskGrows.refl d, hproper⟩

section

variable {levels : Nat} {existOk : Bool}
  (htrees : ∀ {source target : String} {base : Location} {d d' : Disk},
    Disk.hasNul source = false → Disk.hasNul target = false → d.tree.Proper →
      d.Enters source base → d.tree.kindAt base = some .directory →
        (DiskM.copyTreeFrom levels existOk source target).run d =
          (.error (.outOfRange .nesting), d') →
          ∃ way, way.length = levels ∧ d'.tree.kindAt (base ++ way) = some .directory)
  {source target : String} (hsource : Disk.hasNul source = false)
  (htarget : Disk.hasNul target = false) {base : Location}

include htrees hsource htarget

/-- The copy of an entry is nested too deep only if the entry is a directory. -/
theorem nested_of_copyEntry {name : String} (hname : IsAccepted name) {entry : Node}
    {d d' : Disk} (hproper : d.tree.Proper) (henters : d.Enters source base)
    (hdirectory : entry.kind = .directory →
      d.tree.kindAt (base ++ [name]) = some .directory)
    (hrun : (DiskM.copyEntry levels existOk source target name entry).run d =
      (.error (.outOfRange .nesting), d')) :
    ∃ way, way.length = levels + 1 ∧ d'.tree.kindAt (base ++ way) = some .directory := by
  by_cases hentry : entry.kind = .directory
  · cases entry with
    | dir es modified =>
        have hkind := hdirectory rfl
        obtain ⟨way, hlength, hnested⟩ :=
          htrees (hasNul_join hsource hname.hasNul) (hasNul_join htarget hname.hasNul) hproper
            (henters.join hname hkind) hkind hrun
        refine ⟨name :: way, by rw [List.length_cons, hlength], ?_⟩
        rw [List.append_assoc, List.singleton_append] at hnested
        exact hnested
    | _ => cases hentry
  · have hreported : EndsWith d.GrownFrom (fun _ => True) IsFault
        (DiskM.copyEntry levels existOk source target name entry) :=
      endsWith_copyEntry_of_kind hsource htarget hname hentry
    exact absurd (hreported.failure (.self hproper) hrun) not_isFault_nesting

theorem nested_of_copyEntries {entries : Node.Entries} {d d' : Disk} {faults : List CopyFault}
    (hproper : d.tree.Proper) (henters : d.Enters source base)
    (hentries : ∀ entry ∈ entries, IsAccepted entry.1)
    (hdirectories : ∀ entry ∈ entries, entry.2.kind = .directory →
      d.tree.kindAt (base ++ [entry.1]) = some .directory)
    (hrun : (DiskM.copyEntries levels existOk source target faults entries).run d =
      (.error (.outOfRange .nesting), d')) :
    ∃ way, way.length = levels + 1 ∧ d'.tree.kindAt (base ++ way) = some .directory := by
  induction entries generalizing faults d with
  | nil => cases hrun
  | cons entry entries ih =>
      obtain ⟨name, node⟩ := entry
      have hname := hentries (name, node) List.mem_cons_self
      have hfirst : EndsWith d.GrownFrom (fun _ => True) IsCopyFailure
          (DiskM.copyEntry levels existOk source target name node) :=
        endsWith_copyEntry (endsWith_copyTreeFrom levels existOk) hsource htarget hname node
      -- what the first entry leaves has grown, so that the rest is copied from the same directory
      have hrest : ∀ {t : Disk} {faults : List CopyFault}, d.GrownFrom t →
          (DiskM.copyEntries levels existOk source target faults entries).run t =
            (.error (.outOfRange .nesting), d') →
          ∃ way, way.length = levels + 1 ∧ d'.tree.kindAt (base ++ way) = some .directory := by
        intro t faults hgrown hrun
        refine ih hgrown.proper
          (henters.of_keeps hgrown.grows.tree.keepsWays hgrown.grows.current) ?_ ?_ hrun
        · exact fun other hother => hentries other (List.mem_cons_of_mem _ hother)
        · exact fun other hother hkind => hgrown.grows.tree _ _
            (hdirectories other (List.mem_cons_of_mem _ hother) hkind)
      rw [DiskM.run_copyEntries_cons] at hrun
      rcases hcopy : (DiskM.copyEntry levels existOk source target name node).run d with
        ⟨failure | _, t⟩
      · have hgrown := hfirst.state (.self hproper) hcopy
        rw [hcopy] at hrun
        dsimp only at hrun
        split at hrun
        · exact hrest hgrown hrun
        · cases hrun
          exact nested_of_copyEntry htrees hsource htarget hname hproper henters
            (hdirectories (name, node) List.mem_cons_self) hcopy
      · have hgrown := hfirst.state (.self hproper) hcopy
        rw [hcopy] at hrun
        exact hrest hgrown hrun

theorem nested_of_copyInto {entries : Node.Entries} {d d' : Disk}
    (hproper : d.tree.Proper) (henters : d.Enters source base)
    (hentries : ∀ entry ∈ entries, IsAccepted entry.1)
    (hdirectories : ∀ entry ∈ entries, entry.2.kind = .directory →
      d.tree.kindAt (base ++ [entry.1]) = some .directory)
    (hrun : (DiskM.copyInto levels existOk source target entries).run d =
      (.error (.outOfRange .nesting), d')) :
    ∃ way, way.length = levels + 1 ∧ d'.tree.kindAt (base ++ way) = some .directory := by
  have hcopied : EndsWith d.GrownFrom (fun _ => True) IsCopyFailure
      (DiskM.copyEntries levels existOk source target [] entries) :=
    endsWith_copyEntries (endsWith_copyTreeFrom levels existOk) hsource htarget [] hentries
  unfold DiskM.copyInto at hrun
  rw [run_bind] at hrun
  rcases hcopies : (DiskM.copyEntries levels existOk source target [] entries).run d with
    ⟨failure | faults, t⟩
  · rw [hcopies] at hrun
    cases hrun
    exact nested_of_copyEntries htrees hsource htarget hproper henters hentries hdirectories hcopies
  · rw [hcopies] at hrun
    have hgrown := hcopied.state (.self hproper) hcopies
    have hfinish : EndsWith d.GrownFrom (fun _ => True) IsFault
        (DiskM.finishCopy source target faults) := endsWith_finishCopy hsource htarget faults
    exact absurd (hfinish.failure hgrown hrun) not_isFault_nesting

end

/-- A copy that is nested too deep goes down directories that are there, as many as it may. -/
theorem nested_of_copyTreeFrom {levels : Nat} {existOk : Bool} {source target : String}
    {base : Location} {d d' : Disk} (hsource : Disk.hasNul source = false)
    (htarget : Disk.hasNul target = false) (hproper : d.tree.Proper)
    (henters : d.Enters source base) (hdirectory : d.tree.kindAt base = some .directory)
    (hrun : (DiskM.copyTreeFrom levels existOk source target).run d =
      (.error (.outOfRange .nesting), d')) :
    ∃ way, way.length = levels ∧ d'.tree.kindAt (base ++ way) = some .directory := by
  induction levels generalizing source target base d d' with
  | zero =>
      rw [DiskM.copyTreeFrom_zero] at hrun
      cases hrun
      exact ⟨[], rfl, by rwa [List.append_nil]⟩
  | succ levels ih =>
      rw [DiskM.copyTreeFrom_succ, run_bind, run_ask, hsource, if_neg (by decide)] at hrun
      cases hstatus : d.status true source with
      | error code =>
          rw [hstatus] at hrun
          cases hrun
      | ok found =>
          obtain ⟨place, node⟩ := found
          obtain ⟨rfl, hlocate⟩ := henters.place_eq hstatus
          have hmade : EndsWith d.GrownFrom (fun _ => True) IsFault
              (DiskM.makeDirectories existOk target) := endsWith_makeDirectories existOk htarget
          have hget : ∀ entry ∈ node.entries,
              d.tree.get? (base ++ [entry.1]) = some entry.2 := by
            rcases Disk.get?_or_empty_of_status hstatus with ⟨-, hget⟩ | rfl
            · exact fun entry hentry => hproper.get?_of_mem hget hentry
            · intro entry hentry
              cases hentry
          rw [hstatus] at hrun
          dsimp only at hrun
          split at hrun
          · cases hrun
          · rw [run_bind] at hrun
            rcases htargetMade : (DiskM.makeDirectories existOk target).run d with ⟨failure | _, t⟩
            · rw [htargetMade] at hrun
              cases hrun
              exact absurd (hmade.failure (.self hproper) htargetMade)
                not_isFault_nesting
            · rw [htargetMade] at hrun
              have hgrown := hmade.state (.self hproper) htargetMade
              refine nested_of_copyInto (fun hs ht hp he hd hr => ih hs ht hp he hd hr) hsource
                htarget hgrown.proper
                (henters.of_keeps hgrown.grows.tree.keepsWays hgrown.grows.current)
                (isAccepted_of_mem_entries hproper hstatus) (fun entry hentry hkind => ?_) hrun
              refine hgrown.grows.tree _ _ ?_
              rw [Node.kindAt, hget entry hentry, Option.map_some, hkind]

/-- A directory that is gone holds nothing. -/
theorem Disk.entries_eq_nil_of_lost {d : Disk} {path name : String} {base : Location}
    {lost : List String} {place : Place} {node : Node}
    (hlocate : d.locate true path = .ok (.directory ⟨base, name :: lost⟩))
    (hstatus : d.status true path = .ok (place, node)) : node.entries = [] := by
  rcases Disk.status_eq_ok_iff.mp hstatus with ⟨hother, rfl⟩ | ⟨parent, last, hother, -⟩
  · rw [hlocate, Except.ok.injEq, Spot.directory.injEq] at hother
    subst hother
    rfl
  · rw [hlocate] at hother
    cases hother

/-- Nothing to go down to is found in a directory that is empty. -/
theorem isReported_of_copyTreeFrom {levels : Nat} {existOk : Bool} {source target : String}
    {d d' : Disk} {failure : Failure} (hsource : Disk.hasNul source = false)
    (htarget : Disk.hasNul target = false) (hproper : d.tree.Proper)
    (hempty : ∀ place node, d.status true source = .ok (place, node) → node.entries = [])
    (hrun : (DiskM.copyTreeFrom (levels + 1) existOk source target).run d =
      (.error failure, d')) : IsReported failure := by
  have hends : EndsWith d.GrownFrom (fun _ => True) IsFault (do
      DiskM.makeDirectories existOk target
      DiskM.finishCopy source target []) :=
    endsWith_bind (endsWith_makeDirectories existOk htarget) fun _ _ =>
      endsWith_finishCopy hsource htarget []
  rw [DiskM.copyTreeFrom_succ, run_bind, run_ask, hsource, if_neg (by decide)] at hrun
  cases hstatus : d.status true source with
  | error code =>
      rw [hstatus] at hrun
      cases hrun
      exact isReported_system _ _ _
  | ok found =>
      obtain ⟨place, node⟩ := found
      rw [hstatus] at hrun
      dsimp only at hrun
      rw [hempty place node hstatus] at hrun
      split at hrun
      · cases hrun
        exact isReported_system _ _ _
      · exact (hends.failure (.self hproper) hrun).reported

/-- Directories are nested in the tree as deep as a copy may go. -/
def Disk.IsDeep (d : Disk) : Prop :=
  ∃ location, DiskM.nestingLimit ≤ location.length ∧ d.tree.kindAt location = some .directory

theorem hasNul_of_isFile {d : Disk} {path : String} (hpath : d.isFile path = true) :
    Disk.hasNul path = false := by
  cases hnul : Disk.hasNul path with
  | false => rfl
  | true =>
      rw [Disk.isFile_iff, Disk.kindOf_of_nul d hnul] at hpath
      cases hpath

section

variable {d d' : Disk} {source target : String} {failure : Failure}
  (hproper : d.tree.Proper) (hcwd : d.tree.kindAt d.cwd.base = some .directory)

include hproper hcwd

/-- A copy of a directory fails in a way that is not reported only if it is nested too deep. -/
theorem copyTree_eq_error {existOk : Bool} (hsource : d.isDirectory source = true)
    (htarget : Disk.hasNul target = false) (hfailure : ¬IsReported failure)
    (hrun : (DiskM.copyTree existOk source target).run d = (.error failure, d')) :
    failure = .outOfRange .nesting ∧ d'.IsDeep := by
  have hnul := Disk.hasNul_of_isDirectory hsource
  have hends : EndsWith d.GrownFrom (fun _ => True) IsCopyFailure
      (DiskM.copyTree existOk source target) := endsWith_copyTreeFrom _ existOk hnul htarget
  have hnesting := (hends.failure (.self hproper) hrun).resolve_left fun hfault =>
    hfailure hfault.reported
  subst hnesting
  refine ⟨rfl, ?_⟩
  obtain ⟨⟨base, lost⟩, hlocate⟩ := Disk.exists_place_of_isDirectory hsource
  cases lost with
  | nil =>
      obtain ⟨way, hlength, hnested⟩ := nested_of_copyTreeFrom hnul htarget hproper
        (Disk.enters_of_locate hlocate) (Disk.kindAt_of_locate hcwd hlocate) hrun
      exact ⟨base ++ way, by rw [List.length_append, hlength]; exact Nat.le_add_left _ _, hnested⟩
  | cons name lost =>
      exact absurd (isReported_of_copyTreeFrom hnul htarget hproper
        (fun place node hstatus => Disk.entries_eq_nil_of_lost hlocate hstatus) hrun) hfailure

end

end BuildRunner
