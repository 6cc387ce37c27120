import BuildRunner.Proofs.Disk.Placing

/-!
# Copies of an entry onto itself

No file is copied onto itself, under whatever spelling of its path.  A directory that is copied onto
itself stays as it is with all that it holds, also where the copy stops with faults.
-/

namespace BuildRunner

/-- A change that leaves the entry at a location as it is changes nothing. -/
theorem Node.modify_of_fixed {f : Node → Node} {tree node : Node} {location : Location}
    (hdistinct : ∀ location node, tree.get? location = some node → node.names.Nodup)
    (hnode : tree.get? location = some node) (hfixed : f node = node) :
    tree.modify f location = tree := by
  induction location generalizing tree with
  | nil =>
      cases hnode
      exact hfixed
  | cons name rest ih =>
      cases tree with
      | dir es modified =>
          have hnames : (Node.dir es modified).names.Nodup := hdistinct [] _ rfl
          have hsame : ∀ entry ∈ es,
              (entry.1, if entry.1 = name then entry.2.modify f rest else entry.2) = entry := by
            intro entry hentry
            split
            · next hname =>
                have hlookup : es.lookup name = some entry.2 := by
                  rw [← hname]
                  exact lookup_of_mem hnames hentry
                have hbelow : ∀ location, entry.2.get? location =
                    (Node.dir es modified).get? (name :: location) := by
                  intro location
                  rw [get?, entries, hlookup]
                  rfl
                rw [ih (fun location node hthere => hdistinct (name :: location) node
                  ((hbelow location).symm.trans hthere)) ((hbelow rest).trans hnode)]
            · rfl
          rw [modify, mapNamed]
          congr 1
          exact (List.map_congr_left hsame).trans (List.map_id _)
      | _ => rfl

namespace Disk

/-- Two paths lead into the same directory. -/
structure Coincide (first second : String) (base : Location) (d : Disk) : Prop where
  first_nul : hasNul first = false
  second_nul : hasNul second = false
  first_enters : d.Enters first base
  second_enters : d.Enters second base
  directory : d.tree.kindAt base = some .directory

variable {d : Disk} {path : String} {location base : Location} {entry : Node}

/-- What names an entry that is no directory leads to none. -/
theorem Names.isDirectory_eq_false (hnames : d.Names path location)
    (hcwd : d.tree.kindAt d.cwd.base = some .directory)
    (hentry : d.tree.get? location = some entry) (hplain : ¬entry.kind.IsWay) :
    d.isDirectory path = false := by
  have hdirectory : entry.kind ≠ .directory := by
    rintro hkind
    exact hplain (by rw [hkind]; trivial)
  have hlink : ∀ target, entry.kind ≠ .link target := by
    rintro target hkind
    exact hplain (by rw [hkind]; trivial)
  rw [Bool.eq_false_iff]
  intro hthere
  obtain ⟨place, hlocate⟩ := exists_place_of_isDirectory hthere
  have hstatus : d.status true path = .ok (⟨location, []⟩, entry) :=
    hnames.status hentry hdirectory fun _ => hlink
  rw [status_eq_ok_iff.mpr (Or.inl ⟨hlocate, rfl⟩)] at hstatus
  obtain ⟨rfl, -⟩ := Prod.mk.inj (Except.ok.inj hstatus)
  have hkind := kindAt_of_locate hcwd hlocate
  rw [Node.kindAt, hentry] at hkind
  exact hdirectory (Option.some.inj hkind)

/-- What two paths name at one location is one entry. -/
theorem Names.sameEntry {other : String} (hnames : d.Names path location)
    (hother : d.Names other location) (hentry : d.tree.get? location = some entry)
    (hplain : ¬entry.kind.IsWay) : d.sameEntry path other = .ok true := by
  have hdirectory : entry.kind ≠ .directory := by
    rintro hkind
    exact hplain (by rw [hkind]; trivial)
  have hlink : ∀ target, entry.kind ≠ .link target := by
    rintro target hkind
    exact hplain (by rw [hkind]; trivial)
  unfold Disk.sameEntry
  rw [hnames.status hentry hdirectory fun _ => hlink,
    hother.status hentry hdirectory fun _ => hlink]
  simp [bind, Except.bind]

end Disk

section

variable {levels : Nat} {source target : String} {base : Location} {d d' : Disk}
  {result : Except Failure Unit}

/-! ## Files -/

/-- A file is not copied onto itself. -/
theorem run_copyFile_of_sameEntry {file : DiskM.CopySource}
    (hsource : Disk.hasNul file.path = false)
    (htarget : Disk.hasNul target = false) (hfree : d.isDirectory target = false)
    (hsame : d.sameEntry file.path target = .ok true) :
    (DiskM.copyFile file target).run d = (.error (.sameFile file.shown target), d) := by
  have hasked : (DiskM.sameEntry file.path target).run d = (.ok true, d) := by
    unfold DiskM.sameEntry
    rw [hsource, htarget, Bool.or_false, if_neg (by decide), run_bind, run_get]
    dsimp only
    rw [hsame]
    rfl
  unfold DiskM.copyFile
  rw [run_bind, run_get]
  dsimp only
  rw [hfree, if_neg (by decide), run_bind]
  unfold DiskM.copyBytes
  rw [run_bind, hasked]
  rfl

theorem unchanged_of_copyFile {file : DiskM.CopySource} {location : Location} {entry : Node}
    (hcwd : d.tree.kindAt d.cwd.base = some .directory)
    (hsource : Disk.hasNul file.path = false) (htarget : Disk.hasNul target = false)
    (hfrom : d.WouldName file.path location) (hto : d.WouldName target location)
    (hentry : d.tree.get? location = some entry) (hplain : ¬entry.kind.IsWay)
    (hrun : (DiskM.copyFile file target).run d = (result, d')) :
    d' = d ∧ result ≠ .ok () := by
  have hfree : d.isDirectory target = false := by
    rw [Bool.eq_false_iff]
    intro hdirectory
    obtain ⟨place, hlocate⟩ := Disk.exists_place_of_isDirectory hdirectory
    rw [(hto (Disk.checkPath_of_locate hlocate)).isDirectory_eq_false hcwd hentry hplain]
      at hdirectory
    cases hdirectory
  rcases DiskM.copyFile_cases hfree hrun with
    ⟨rfl, failure, rfl⟩ | ⟨data, t, -, hread, hstore, -⟩
  · exact ⟨rfl, by simp⟩
  · obtain ⟨place, node, hstatus, -⟩ := Disk.read_eq_ok hread
    have hsame := (hfrom (Disk.checkPath_of_status hstatus)).sameEntry
      (hto (Disk.checkPath_of_store hstore)) hentry hplain
    rw [run_copyFile_of_sameEntry hsource htarget hfree hsame] at hrun
    cases hrun
    exact ⟨rfl, by simp⟩

/-! ## Directories -/

section

variable (hcoincide : d.Coincide source target base)

include hcoincide

theorem unchanged_of_copyStatus (hproper : d.tree.Proper)
    (hcwd : d.tree.kindAt d.cwd.base = some .directory)
    (hrun : (DiskM.copyStatus source target).run d = (result, d')) : d' = d := by
  rcases DiskM.copyStatus_cases hrun with ⟨rfl, -⟩ | ⟨-, place, node, hstatus, hset⟩
  · rfl
  · obtain ⟨there, held, hheld, rfl⟩ := Disk.copyStatus_inv hset
    obtain ⟨rfl, -⟩ := hcoincide.second_enters.place_eq hheld
    obtain ⟨rfl, -⟩ := hcoincide.first_enters.place_eq hstatus
    have hnode := Disk.get?_of_status hcwd hstatus rfl
    have hdirectory := hcoincide.directory
    rw [Node.kindAt, hnode] at hdirectory
    have hfixed : Node.withStatus node node = node := by
      cases node with
      | dir es modified => rfl
      | _ => cases hdirectory
    rw [if_pos rfl]
    show { d with tree := d.tree.modify (Node.withStatus node) base } = d
    rw [Node.modify_of_fixed hproper.distinct hnode hfixed]

theorem unchanged_of_link {name linked : String} (haccepted : IsAccepted name)
    (hfound : d.tree.kindAt (base ++ [name]) ≠ none)
    (hrun : (DiskM.copyEntry levels true source target name (.link linked)).run d = (result, d')) :
    d' = d := by
  rcases run_bind_of_unchanged (respects_ask isFrame_eq _ _) hrun with
    ⟨hsame, -⟩ | ⟨read, -, hrun⟩
  · exact hsame
  rw [run_change₂] at hrun
  split at hrun
  · cases hrun
    rfl
  cases hmade : d.makeLink read (Path.join target name) with
  | error code =>
      rw [hmade] at hrun
      cases hrun
      rfl
  | ok made =>
      obtain ⟨parent, last, htip, -, -, hfree, -⟩ := Disk.makeLink_inv hmade
      obtain ⟨-, other, last', hplace, -, -, -, hother⟩ := hcoincide.second_enters.names
        hcoincide.second_nul haccepted (Disk.tip_eq_ok_iff.mp htip).1
      rw [htip] at hother
      cases hother
      exact absurd hfree (hplace ▸ hfound)

theorem unchanged_of_file {name : String} {kind : Kind}
    (hcwd : d.tree.kindAt d.cwd.base = some .directory) (haccepted : IsAccepted name)
    (hfound : d.tree.kindAt (base ++ [name]) = some kind) (hplain : ¬kind.IsWay)
    (hrun : (DiskM.copyFile (.ofEntry source name) (Path.join target name)).run d =
      (result, d')) : d' = d := by
  obtain ⟨entry, hentry, rfl⟩ := Option.map_eq_some_iff.mp hfound
  have hsource : Disk.hasNul (DiskM.CopySource.ofEntry source name).path = false :=
    hasNul_join hcoincide.first_nul haccepted.hasNul
  have hfrom : d.WouldName (DiskM.CopySource.ofEntry source name).path (base ++ [name]) :=
    hcoincide.first_enters.names hcoincide.first_nul haccepted
  have hto : d.WouldName (Path.join target name) (base ++ [name]) :=
    hcoincide.second_enters.names hcoincide.second_nul haccepted
  exact (unchanged_of_copyFile hcwd hsource (hasNul_join hcoincide.second_nul haccepted.hasNul)
    hfrom hto hentry hplain hrun).1

/-- What a directory holds is not copied onto itself, if this is known of the directories in it. -/
theorem unchanged_of_copyEntry {entry : String × Node}
    (hcwd : d.tree.kindAt d.cwd.base = some .directory)
    (htrees : ∀ {source target : String} {base : Location} {d' : Disk}
      {result : Except Failure Unit}, d.Coincide source target base →
        (DiskM.copyTreeFrom levels true source target).run d = (result, d') → d' = d)
    (haccepted : IsAccepted entry.1)
    (hfound : d.tree.kindAt (base ++ [entry.1]) = some entry.2.kind)
    (hrun : (DiskM.copyEntry levels true source target entry.1 entry.2).run d = (result, d')) :
    d' = d := by
  obtain ⟨name, node⟩ := entry
  cases node with
  | link linked => exact unchanged_of_link hcoincide haccepted (by simp [hfound]) hrun
  | dir es modified =>
      have hkind : d.tree.kindAt (base ++ [name]) = some .directory := hfound
      exact htrees ⟨hasNul_join hcoincide.first_nul haccepted.hasNul,
        hasNul_join hcoincide.second_nul haccepted.hasNul,
        hcoincide.first_enters.join haccepted hkind,
        hcoincide.second_enters.join haccepted hkind, hkind⟩ hrun
  | file data executable modified =>
      exact unchanged_of_file hcoincide hcwd haccepted hfound id hrun
  | pipe => exact unchanged_of_file hcoincide hcwd haccepted hfound id hrun
  | null => exact unchanged_of_file hcoincide hcwd haccepted hfound id hrun

theorem unchanged_of_copyEntries {entries : Node.Entries} {faults : List CopyFault}
    {found : Except Failure (List CopyFault)}
    (hcwd : d.tree.kindAt d.cwd.base = some .directory)
    (htrees : ∀ {source target : String} {base : Location} {d' : Disk}
      {result : Except Failure Unit}, d.Coincide source target base →
        (DiskM.copyTreeFrom levels true source target).run d = (result, d') → d' = d)
    (hentries : ∀ entry ∈ entries,
      IsAccepted entry.1 ∧ d.tree.kindAt (base ++ [entry.1]) = some entry.2.kind)
    (hrun : (DiskM.copyEntries levels true source target faults entries).run d = (found, d')) :
    d' = d := by
  induction entries generalizing faults with
  | nil =>
      cases hrun
      rfl
  | cons entry entries ih =>
      obtain ⟨haccepted, hfound⟩ := hentries entry List.mem_cons_self
      have hrest := fun other hother => hentries other (List.mem_cons_of_mem _ hother)
      rw [← Prod.eta entry, DiskM.run_copyEntries_cons] at hrun
      rcases hfirst : (DiskM.copyEntry levels true source target entry.1 entry.2).run d with
        ⟨failure | _, t⟩
      · obtain rfl := unchanged_of_copyEntry hcoincide hcwd htrees haccepted hfound hfirst
        rw [hfirst] at hrun
        dsimp only at hrun
        split at hrun
        · exact ih hrest hrun
        · cases hrun
          rfl
      · obtain rfl := unchanged_of_copyEntry hcoincide hcwd htrees haccepted hfound hfirst
        rw [hfirst] at hrun
        exact ih hrest hrun

/-- What is listed in a directory is not copied onto itself. -/
theorem unchanged_of_copyInto {entries : Node.Entries} (hproper : d.tree.Proper)
    (hcwd : d.tree.kindAt d.cwd.base = some .directory)
    (htrees : ∀ {source target : String} {base : Location} {d' : Disk}
      {result : Except Failure Unit}, d.Coincide source target base →
        (DiskM.copyTreeFrom levels true source target).run d = (result, d') → d' = d)
    (hentries : ∀ entry ∈ entries,
      IsAccepted entry.1 ∧ d.tree.kindAt (base ++ [entry.1]) = some entry.2.kind)
    (hrun : (DiskM.copyInto levels true source target entries).run d = (result, d')) :
    d' = d := by
  unfold DiskM.copyInto at hrun
  rw [run_bind] at hrun
  rcases hcopies : (DiskM.copyEntries levels true source target [] entries).run d with
    ⟨failure | faults, t⟩
  · rw [hcopies] at hrun
    cases hrun
    exact unchanged_of_copyEntries hcoincide hcwd htrees hentries hcopies
  · obtain rfl := unchanged_of_copyEntries hcoincide hcwd htrees hentries hcopies
    rw [hcopies] at hrun
    obtain ⟨status, hstatus, -⟩ :=
      finishCopy_cases hproper hcoincide.first_nul hcoincide.second_nul hrun
    exact unchanged_of_copyStatus hcoincide hproper hcwd hstatus

end

/-- A directory that is copied onto itself stays as it is. -/
theorem unchanged_of_copyTreeFrom (hproper : d.tree.Proper)
    (hcwd : d.tree.kindAt d.cwd.base = some .directory) (hcoincide : d.Coincide source target base)
    (hrun : (DiskM.copyTreeFrom levels true source target).run d = (result, d')) : d' = d := by
  induction levels generalizing source target base d' result with
  | zero =>
      rw [DiskM.copyTreeFrom_zero] at hrun
      cases hrun
      rfl
  | succ levels ih =>
      rw [DiskM.copyTreeFrom_succ] at hrun
      rcases run_bind_of_unchanged (respects_ask isFrame_eq _ _) hrun with
        ⟨hsame, -⟩ | ⟨⟨place, node⟩, hstatus, hrun⟩
      · exact hsame
      obtain ⟨rfl, -⟩ := hcoincide.first_enters.place_eq (DiskM.ask_eq_ok hstatus)
      have hnode := Disk.get?_of_status hcwd (DiskM.ask_eq_ok hstatus) rfl
      dsimp only at hrun hnode
      split at hrun
      · cases hrun
        rfl
      rw [run_bind] at hrun
      obtain ⟨left, henter⟩ := hcoincide.second_enters.way
      rcases hmade : (DiskM.makeDirectories true target).run d with ⟨first, t⟩
      obtain ⟨rfl, -⟩ := makeDirectoriesFrom_of_noRoom hcoincide.second_nul
        (Disk.noRoom_of_enter henter) (Nat.lt_succ_self _) hmade
      rw [hmade] at hrun
      rcases first with failure | _
      · cases hrun
        rfl
      · refine unchanged_of_copyInto hcoincide hproper hcwd ih (fun entry hentry => ?_) hrun
        have hfound : t.tree.kindAt (base ++ [entry.1]) = some entry.2.kind := by
          rw [Node.kindAt, hproper.get?_of_mem hnode hentry]
          rfl
        exact ⟨hproper.accepted _ _ hfound entry.1 (by simp), hfound⟩

end

end BuildRunner
