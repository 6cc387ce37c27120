import BuildRunner.Proofs.Disk.Duplicating
import BuildRunner.Proofs.Disk.Paving
import BuildRunner.Proofs.Disk.Relocating
import BuildRunner.Proofs.Disk.SamePlace
import BuildRunner.Proofs.Disk.Touching

/-!
# What a copy delivers

On a tree of directories and regular files a copy that succeeds is found where its path leads: there
is what the source held before, down to every file and directory of it, and no file is changed but by
a file of the source.  This holds for places apart from the source and for the source itself, and as
long as no directory stands where a file is to be.
-/

namespace BuildRunner

/-! ## Paths on a disk that has grown -/

namespace Disk

variable {d d' : Disk} {path : String} {location : Location}

theorem Grows.prunes (hgrows : d.Grows d') : d'.tree.Prunes d.tree := by
  intro location
  cases hkind : d.tree.kindAt location with
  | none => exact Or.inl rfl
  | some kind => exact Or.inr (hgrows.tree _ _ hkind).symm

/-- What a path leads to is found at the same place. -/
theorem Grows.status (hgrows : d.Grows d') {place : Place} {node : Node}
    (hstatus : d.status true path = .ok (place, node)) :
    ∃ node', d'.status true path = .ok (place, node') := by
  have hstart : startPlace d.cwd path = startPlace d'.cwd path := by rw [hgrows.current]
  rcases status_eq_ok_iff.mp hstatus with ⟨hlocate, -⟩ | ⟨parent, name, hlocate, rfl⟩
  · exact ⟨_, status_eq_ok_iff.mpr
      (Or.inl ⟨locate_of_prunes hgrows.prunes hstart hlocate, rfl⟩)⟩
  · obtain ⟨node', hthere, -⟩ := locate_of_prunes hgrows.prunes hstart hlocate
    exact ⟨node', status_eq_ok_iff.mpr (Or.inr ⟨parent, name, hthere, rfl⟩)⟩

theorem Grows.pathExists (hgrows : d.Grows d') (hexists : d.pathExists path = true) :
    d'.pathExists path = true := by
  unfold Disk.pathExists node? at hexists ⊢
  split at hexists
  · cases hexists
  · next hnul =>
      rw [if_neg hnul]
      cases hstatus : d.status true path with
      | error code =>
          rw [hstatus] at hexists
          cases hexists
      | ok found =>
          obtain ⟨node, hthere⟩ := hgrows.status hstatus
          rw [hthere]
          rfl

theorem Grows.isFile (hgrows : d.Grows d') (hfile : d.isFile path = true) :
    d'.isFile path = true := by
  rw [isFile_iff] at hfile ⊢
  exact kindOf_of_prunes hgrows.prunes (by rw [hgrows.current]) (by simp) hfile

theorem Grows.isDirectory (hgrows : d.Grows d')
    (hcwd : d.tree.kindAt d.cwd.base = some .directory) (hdirectory : d.isDirectory path = true) :
    d'.isDirectory path = true := by
  obtain ⟨place, hlocate⟩ := exists_place_of_isDirectory hdirectory
  have hthere : d'.locate true path = .ok (.directory place) :=
    locate_of_prunes hgrows.prunes (by rw [hgrows.current]) hlocate
  rw [isDirectory_iff, kindOf_eq d' (hasNul_of_isDirectory hdirectory), hthere]
  simp only [Except.toOption, Option.bind_some, spotKind, kind_nodeAt]
  split
  · rw [hgrows.tree _ _ (kindAt_of_locate hcwd hlocate)]
    rfl
  · rfl

/-- The path leads to the entry at the location. -/
def LeadsTo (d : Disk) (path : String) (location : Location) : Prop :=
  ∃ node, d.status true path = .ok (⟨location, []⟩, node)

theorem LeadsTo.of_grows (hleads : d.LeadsTo path location) (hgrows : d.Grows d') :
    d'.LeadsTo path location := by
  obtain ⟨node, hstatus⟩ := hleads
  exact hgrows.status hstatus

/-- What a location held is held by the copy as well, and a file that no file is copied to is as it
was. -/
structure Delivers (origin copy : Location) (d d' : Disk) : Prop where
  same : ∀ rest entry, d.tree.ownAt (origin ++ rest) = some entry →
    d'.tree.ownAt (copy ++ rest) = some entry
  spared : ∀ location, d.tree.kindAt location = some .file →
    (∀ rest, location = copy ++ rest → d.tree.kindAt (origin ++ rest) ≠ some .file) →
      d'.tree.ownAt location = d.tree.ownAt location

theorem locate_of_goal (hlinkless : d.tree.Linkless) (hgoal : d.goal path = ⟨location, []⟩)
    (hdirectory : d.isDirectory path = true) :
    d.locate true path = .ok (.directory ⟨location, []⟩) := by
  obtain ⟨place, hlocate⟩ := exists_place_of_isDirectory hdirectory
  have hplace := place_of_status hlinkless (status_eq_ok_iff.mpr (Or.inl ⟨hlocate, rfl⟩))
  rw [hlocate, hplace, hgoal]

/-- On a tree without links the tip of a path is where the path says. -/
theorem names_of_tip (hlinkless : d.tree.Linkless) (hnul : hasNul path = false)
    (hgoal : d.goal path = ⟨location, []⟩) {parent : Place} {name : String}
    (hpath : NamesEntry path name) (htip : d.tip path = .ok (parent, .name name false))
    (hshort : name.utf8ByteSize ≤ greatestName) : d.Names path location := by
  have hdown := down_of_tip hlinkless htip
  rw [hgoal, Place.down] at hdown
  obtain ⟨hlocation, hlost⟩ := Place.mk.inj hdown
  exact ⟨hnul, parent, name, hlocation, hlost.symm, hshort, hpath, htip⟩

/-- What leads to a file names it. -/
theorem names_of_isFile (hlinkless : d.tree.Linkless)
    (hcwd : d.tree.kindAt d.cwd.base = some .directory) (hgoal : d.goal path = ⟨location, []⟩)
    (hfile : d.isFile path = true) :
    d.Names path location ∧ ∃ node, d.tree.get? location = some node ∧ node.kind = .file := by
  obtain ⟨parent, name, node, hleaf, hkind⟩ := exists_leaf_of_isFile hcwd hfile
  have hstatus := status_eq_ok_iff.mpr (Or.inr ⟨parent, name, hleaf, rfl⟩)
  have hplace := (place_of_status hlinkless hstatus).trans hgoal
  rw [hplace] at hstatus
  obtain ⟨last, hpath⟩ := namesEntry_of_leaf hleaf
  rcases d.tip_cases hpath with ⟨code, -, hfailed⟩ | ⟨above, links, htip, hlocate⟩
  · rw [hfailed] at hleaf
    cases hleaf
  · have hshort : last.utf8ByteSize ≤ greatestName := by
      by_contra hlong
      rw [hlocate, if_pos (Nat.not_le.mp hlong)] at hleaf
      cases hleaf
    exact ⟨names_of_tip hlinkless (hasNul_of_isFile hfile) hgoal hpath htip hshort, node,
      get?_of_status hcwd hstatus rfl, hkind⟩

end Disk

/-! ## Directories -/

section

variable {source target : String} {origin copy : Location} {d t d' : Disk} {levels : Nat}

/-- What was copied to by its status is led to. -/
theorem leadsTo_of_copyInto {entries : Node.Entries} (hproper : d.tree.Proper)
    (hsource : Disk.hasNul source = false) (htarget : Disk.hasNul target = false)
    (hentries : ∀ entry ∈ entries, IsAccepted entry.1) (hto : d.Enters target copy)
    (hrun : (DiskM.copyInto levels true source target entries).run d = (.ok (), d')) :
    d'.LeadsTo target copy := by
  have hends : EndsWith d.GrownFrom (fun _ => True) IsCopyFailure
      (DiskM.copyEntries levels true source target [] entries) :=
    endsWith_copyEntries (endsWith_copyTreeFrom levels true) hsource htarget [] hentries
  unfold DiskM.copyInto at hrun
  rw [run_bind] at hrun
  rcases hcopies : (DiskM.copyEntries levels true source target [] entries).run d with
    ⟨failure | faults, t⟩
  · rw [hcopies] at hrun
    cases hrun
  · rw [hcopies] at hrun
    have hgrown := hends.state (.self hproper) hcopies
    obtain ⟨status, hstatus, hok⟩ := finishCopy_cases hgrown.proper hsource htarget hrun
    obtain ⟨-, rfl⟩ := hok rfl
    rcases DiskM.copyStatus_cases hstatus with ⟨-, failure, ⟨⟩⟩ | ⟨-, there, node, -, hset⟩
    obtain ⟨place, held, hfound, -⟩ := Disk.copyStatus_inv hset
    obtain ⟨rfl, -⟩ := (hto.of_keeps hgrown.grows.tree.keepsWays
      hgrown.grows.current).place_eq hfound
    exact (Disk.grows_of_copyStatus hset).status hfound

/-- No files are made with the directories of a path. -/
theorem Disk.Paved.kindAt_of_file {location : Location} (hpaved : d.Paved target t)
    (hfile : t.tree.kindAt location = some .file) : d.tree.kindAt location = some .file := by
  by_cases hsame : t.tree.ownAt location = d.tree.ownAt location
  · rw [Node.kindAt_eq_ownAt, ← hsame, ← Node.kindAt_eq_ownAt, hfile]
  · rw [(hpaved.made _ hsame).2.1] at hfile
    cases hfile

/-- Once the directories of the target are made, the copy fits if no directory stands where a file
is to be. -/
theorem Disk.Paved.fits (hpaved : d.Paved target t) (hordinary : d.tree.Ordinary)
    (hapart : Location.Apart copy origin)
    (hmeets : ∀ rest, d.tree.kindAt (origin ++ rest) = some .file →
      t.tree.kindAt (copy ++ rest) ≠ some .directory) : t.Fits origin copy := by
  have hordinary' := hpaved.altered.added.ordinary hpaved.grown.grows.tree hordinary
  refine ⟨hapart, fun rest kind there hkind hthere => ?_⟩
  rcases hordinary' _ _ hthere with rfl | rfl
  · rcases hordinary' _ _ hkind with rfl | rfl
    · exact Or.inr ⟨rfl, rfl⟩
    · exact absurd hthere (hmeets rest (hpaved.kindAt_of_file hkind))
  · exact Or.inl rfl

/-- Once its directories are made, the path enters the place that it spells, or it is blocked. -/
theorem Disk.Paved.enters (hpaved : d.Paved target t) (hordinary : d.tree.Ordinary)
    (hgoal : d.goal target = ⟨copy, []⟩) (hentered : t.IsEntered target) :
    t.Enters target copy := by
  have hordinary' := hpaved.altered.added.ordinary hpaved.grown.grows.tree hordinary
  obtain ⟨hne, ⟨place, left⟩, henter⟩ := hentered
  have hplace : place = ⟨copy, []⟩ := by
    rw [hordinary'.linkless.place_of_enter henter, ← hgoal,
      ← Disk.goal_congr hpaved.grown.grows.current]
    rfl
  rw [hplace] at henter
  exact ⟨hne, left, henter⟩

/-- Making directories delivers an entry to where it is. -/
theorem Disk.Paved.delivers (hpaved : d.Paved target t) : d.Delivers origin origin t where
  same rest entry hentry := by
    rw [hpaved.ownAt_eq (by rw [Node.kindAt_eq_ownAt, hentry]; simp), hentry]
  spared location hfile _ := hpaved.ownAt_eq (by simp [hfile])

/-- A file beside what is copied is as it was. -/
theorem Disk.Within.ownAt_of_file {base location : Location} (hwithin : d.Within base d')
    (hfile : d.tree.kindAt location = some .file) (hbeside : ¬base <+: location) :
    d'.tree.ownAt location = d.tree.ownAt location := by
  by_cases habove : location <+: base
  · rcases hwithin.above habove (by rintro rfl; exact hbeside (List.prefix_refl _)) with
      hsame | ⟨hnone, -⟩
    · exact hsame
    · rw [hfile] at hnone
      cases hnone
  · exact hwithin.ownAt_apart ⟨hbeside, habove⟩

/-- What was listed before the directories of the target were made is delivered to a place apart. -/
theorem delivers_of_copyInto {node : Node} (hproper : d.tree.Proper)
    (hordinary : d.tree.Ordinary) (hnode : d.tree.get? origin = some node)
    (hpaved : d.Paved target t) (hready : t.Ready source origin target copy)
    (hto : t.Enters target copy)
    (hmeets : ∀ rest, d.tree.kindAt (origin ++ rest) = some .file →
      t.tree.kindAt (copy ++ rest) ≠ some .directory)
    (hrun : (DiskM.copyInto levels true source target node.entries).run t = (.ok (), d')) :
    d.Delivers origin copy d' := by
  have hcopy : t.tree.kindAt copy = some .directory := by
    obtain ⟨left, henter⟩ := hto.way
    exact kindAt_of_enter (kindAt_startPlace target hready.current) henter
  have hentries : ∀ entry ∈ node.entries, IsAccepted entry.1 := fun entry hentry =>
    hproper.accepted _ _ (by rw [Node.kindAt, hproper.get?_of_mem hnode hentry]; rfl) entry.1
      (List.mem_append_right _ List.mem_cons_self)
  -- what the source held before is still there, also where directories were made in it
  have hkept : d.Delivers origin origin t := hpaved.delivers
  have hpending : ∀ entry ∈ node.entries, t.Pending origin copy entry := fun entry hentry =>
    ⟨hentries entry hentry,
      hkept.same [entry.1] _ (by rw [Node.ownAt, hproper.get?_of_mem hnode hentry]; rfl),
      (hpaved.fits hordinary hready.apart hmeets).below entry.1⟩
  obtain ⟨hwithin, hok⟩ := copied_of_listed
    (fun hr ha hf hrun => ⟨(copied_of_copyTreeFrom hr ha hf hrun).1,
      fun hok => ((copied_of_copyTreeFrom hr ha hf hrun).2 hok).2⟩)
    hready hto hcopy (hproper.distinct origin node hnode) hpending hrun
  obtain ⟨hall, hown⟩ := hok rfl
  have hordinary' := hpaved.altered.added.ordinary hpaved.grown.grows.tree hordinary
  have hnull : ∀ {location}, t.tree.ownAt location ≠ some .null := by
    intro location hnull
    simpa using hordinary' location .null (by rw [Node.kindAt_eq_ownAt, hnull]; rfl)
  refine ⟨fun rest entry hentry => ?_, fun location hfile hfree => ?_⟩
  · cases rest with
    | nil =>
        have hhere := hkept.same [] entry hentry
        rw [List.append_nil] at hhere ⊢
        rw [hown, hhere]
    | cons key rest =>
        by_cases hkey : key ∈ node.entries.map Prod.fst
        · have hthere := hkept.same _ entry hentry
          exact (hall.copied key hkey rest).same entry hthere (by rintro rfl; exact hnull hthere)
        · rw [Node.ownAt_of_not_mem hnode hkey rest] at hentry
          cases hentry
  · have hends : EndsWith t.GrownFrom (fun _ => True) IsCopyFailure
        (DiskM.copyInto levels true source target node.entries) :=
      endsWith_copyInto (endsWith_copyTreeFrom levels true) hready.source_nul hready.target_nul
        hentries
    have hgrown := hends.state (.self hready.proper) hrun
    have hfile' := hpaved.grown.grows.tree _ _ hfile
    rw [← hpaved.ownAt_eq (by simp [hfile])]
    by_cases hbelow : copy <+: location
    · obtain ⟨rest, rfl⟩ := hbelow
      cases rest with
      | nil =>
          rw [List.append_nil, hcopy] at hfile'
          cases hfile'
      | cons key rest =>
          by_cases hkey : key ∈ node.entries.map Prod.fst
          · have hcopies := hall.copied key hkey rest
            cases hentry : t.tree.ownAt (origin ++ key :: rest) with
            | none => exact hcopies.spared hentry
            | some entry =>
                -- whatever was copied to the place of a file is a file
                have hsame := hcopies.same entry hentry (by rintro rfl; exact hnull hentry)
                have hkind := hgrown.grows.tree _ _ hfile'
                rw [Node.kindAt_eq_ownAt, hsame, ← hentry, ← Node.kindAt_eq_ownAt] at hkind
                exact absurd (hpaved.kindAt_of_file hkind) (hfree _ rfl)
          · exact hall.others key hkey rest
    · exact hwithin.ownAt_of_file hfile' hbelow

/-- What a directory held is delivered to another place or, by another spelling, to its own. -/
theorem delivered_of_copyTreeFrom (hproper : d.tree.Proper) (hordinary : d.tree.Ordinary)
    (hcwd : d.tree.kindAt d.cwd.base = some .directory) (hsource : d.isDirectory source = true)
    (hfrom : d.goal source = ⟨origin, []⟩) (hgoal : d.goal target = ⟨copy, []⟩)
    (hplace : Location.Apart copy origin ∨ copy = origin)
    (hmeets : ∀ rest, d.tree.kindAt (origin ++ rest) = some .file →
      (stateAfter (DiskM.makeDirectories true target) d).tree.kindAt (copy ++ rest) ≠
        some .directory)
    (hrun : (DiskM.copyTreeFrom levels true source target).run d = (.ok (), d')) :
    d'.LeadsTo target copy ∧ d.Delivers origin copy d' := by
  cases levels with
  | zero =>
      rw [DiskM.copyTreeFrom_zero] at hrun
      cases hrun
  | succ levels =>
      rw [DiskM.copyTreeFrom_succ] at hrun
      rcases run_bind_of_unchanged (respects_ask isFrame_eq _ _) hrun with
        ⟨-, failure, ⟨⟩⟩ | ⟨⟨place, node⟩, hasked, hrun⟩
      have hstatus := DiskM.ask_eq_ok hasked
      obtain rfl := (Disk.place_of_status hordinary.linkless hstatus).trans hfrom
      dsimp only at hrun
      split at hrun
      · cases hrun
      rw [run_bind] at hrun
      rcases hmade : (DiskM.makeDirectories true target).run d with ⟨failure | _, t⟩
      · rw [hmade] at hrun
        cases hrun
      rw [hmade] at hrun
      dsimp only at hrun
      rw [stateAfter_of_run hmade] at hmeets
      have hnul := Disk.hasNul_of_isDirectory hsource
      have htarget := hasNul_of_makeDirectories hproper hmade
      have hpaved := (respects_makeDirectories_paves true (.refl target)).of_run hmade hproper
        hordinary.linkless
      have hproper' := hpaved.grown.proper
      have hcwd' : t.tree.kindAt t.cwd.base = some .directory := by
        rw [hpaved.grown.grows.current]
        exact hpaved.grown.grows.tree _ _ hcwd
      have hnode := Disk.get?_of_status hcwd hstatus rfl
      have hentries := isAccepted_of_mem_entries hproper hstatus
      have hlocate := Disk.locate_of_goal hordinary.linkless hfrom hsource
      have hsource' : t.Enters source origin := (Disk.enters_of_locate hlocate).of_keeps
        hpaved.grown.grows.tree.keepsWays hpaved.grown.grows.current
      have horigin := hpaved.grown.grows.tree _ _ (Disk.kindAt_of_locate hcwd hlocate)
      have hto : t.Enters target copy := by
        refine hpaved.enters hordinary hgoal
          ((entered_of_makeDirectories hcwd hmade).resolve_right fun hblocked => ?_)
        obtain ⟨-, failure, ⟨⟩⟩ := copyInto_of_shut
          (fun hs ht hr hf hrun => (copyTreeFrom_of_noRoom hproper' hs ht hr hf hrun).1) hproper'
          hnul htarget hentries hblocked.noRoom hblocked.shut hrun
      refine ⟨leadsTo_of_copyInto hproper' hnul htarget hentries hto hrun, ?_⟩
      rcases hplace with hapart | rfl
      · exact delivers_of_copyInto hproper hordinary hnode hpaved
          ⟨hproper', hcwd', hnul, htarget, hsource', horigin, hapart⟩ hto hmeets hrun
      · have hcoincide : t.Coincide source target copy := ⟨hnul, htarget, hsource', hto, horigin⟩
        have hthere : ∀ entry ∈ node.entries, IsAccepted entry.1 ∧
            t.tree.kindAt (copy ++ [entry.1]) = some entry.2.kind := fun entry hentry => by
          refine ⟨hentries entry hentry, hpaved.grown.grows.tree _ _ ?_⟩
          rw [Node.kindAt, hproper.get?_of_mem hnode hentry]
          rfl
        rw [unchanged_of_copyInto hcoincide hproper' hcwd'
          (unchanged_of_copyTreeFrom hproper' hcwd') hthere hrun]
        exact hpaved.delivers

/-! ## Files -/

theorem hasNul_of_copyBytes {file : DiskM.CopySource}
    (hrun : (DiskM.copyBytes file target).run d = (.ok (), d')) : Disk.hasNul target = false := by
  unfold DiskM.copyBytes at hrun
  rw [run_bind] at hrun
  cases hnul : Disk.hasNul target with
  | false => rfl
  | true =>
      have hsame : (DiskM.sameEntry file.path target).run d = (.error .nullByte, d) := by
        unfold DiskM.sameEntry
        rw [hnul, Bool.or_true, if_pos rfl]
        rfl
      rw [hsame] at hrun
      cases hrun

/-- A file is delivered where no directory stands, but never onto itself. -/
theorem delivered_of_copyFile (hordinary : d.tree.Ordinary)
    (hcwd : d.tree.kindAt d.cwd.base = some .directory) (hsource : d.isFile source = true)
    (hfrom : d.goal source = ⟨origin, []⟩) (hgoal : d.goal target = ⟨copy, []⟩)
    (hplace : Location.Apart copy origin ∨ copy = origin) (hpaved : d.Paved target t)
    (hmeets : t.tree.kindAt copy ≠ some .directory)
    (hrun : (DiskM.copyFile (.ofPath source) target).run t = (.ok (), d')) :
    d'.LeadsTo target copy ∧ d.Delivers origin copy d' := by
  obtain ⟨hnames, node, hnode, hkind⟩ :=
    Disk.names_of_isFile hordinary.linkless hcwd hfrom hsource
  have hgrows := hpaved.grown.grows
  have hordinary' := hpaved.altered.added.ordinary hgrows.tree hordinary
  have hcwd' : t.tree.kindAt t.cwd.base = some .directory := by
    rw [hgrows.current]
    exact hgrows.tree _ _ hcwd
  have hgoal' : t.goal target = ⟨copy, []⟩ := (Disk.goal_congr hgrows.current target).trans hgoal
  have hleaf : node.kind ≠ .directory := by simp [hkind]
  have hplain : ¬node.kind.IsWay := by
    rw [hkind]
    exact id
  have hnames' := hnames.of_keeps hgrows.tree.keepsWays hgrows.current
  have hnode' : t.tree.get? origin = some node := by
    refine Node.get?_of_ownAt ?_ hleaf
    rw [hpaved.ownAt_eq (by simp [Node.kindAt, hnode]), Node.ownAt, hnode]
    rfl
  have hfree : t.isDirectory target = false := by
    rw [Bool.eq_false_iff]
    intro hdirectory
    exact hmeets (Disk.kindAt_of_locate hcwd'
      (Disk.locate_of_goal hordinary'.linkless hgoal' hdirectory))
  have hroom : t.tree.kindAt copy = none ∨ t.tree.kindAt copy = some .file := by
    cases hthere : t.tree.kindAt copy with
    | none => exact Or.inl rfl
    | some there =>
        rcases hordinary' _ _ hthere with rfl | rfl
        · exact absurd hthere hmeets
        · exact Or.inr rfl
  have hnul : Disk.hasNul target = false := by
    have hbytes := hrun
    unfold DiskM.copyFile at hbytes
    rw [run_bind, run_get] at hbytes
    dsimp only at hbytes
    rw [hfree, if_neg (by decide), run_bind] at hbytes
    rcases hfirst : (DiskM.copyBytes (.ofPath source) target).run t with ⟨failure | _, u⟩
    · rw [hfirst] at hbytes
      cases hbytes
    · exact hasNul_of_copyBytes hfirst
  rcases DiskM.copyFile_cases hfree hrun with
    ⟨-, failure, ⟨⟩⟩ | ⟨data, u, -, -, hstore, -⟩
  obtain ⟨above, last, hwritable, -⟩ := Disk.store_inv hstore
  obtain ⟨name, hpath⟩ := Disk.namesEntry_of_writable hwritable
  obtain ⟨parent, htip, hshort, -⟩ := Disk.tip_of_writable hpath hwritable
  have hto := Disk.names_of_tip hordinary'.linkless hnul hgoal' hpath htip hshort
  have hfile : Disk.hasNul (DiskM.CopySource.ofPath source).path = false :=
    hasNul_of_isFile hsource
  rcases hplace with hapart | rfl
  · obtain ⟨hwithin, hok⟩ := copyFile_named hcwd' hnul (fun _ => hnames') (fun _ => hto) hnode'
      hplain hapart hroom hrun
    obtain ⟨made, hmade, -, hsame⟩ := hok rfl
    obtain rfl := hsame (by rintro rfl; cases hkind)
    have hends : EndsWith t.GrownFrom (fun _ => True) IsFault
        (DiskM.copyFile (.ofPath source) target) := endsWith_copyFile hfile hnul
    have hgrown := hends.state (.self hpaved.grown.proper) hrun
    refine ⟨⟨made, (hto.of_keeps hgrown.grows.tree.keepsWays hgrown.grows.current).status hmade
      hleaf (by simp [hkind])⟩, fun rest entry hentry => ?_, fun location hthere hother => ?_⟩
    · cases rest with
      | nil =>
          rw [List.append_nil, Node.ownAt] at hentry ⊢
          rw [hnode] at hentry
          rw [hmade, hentry]
      | cons key rest =>
          rw [Node.ownAt_below (by simp [Node.kindAt, hnode, hkind])] at hentry
          cases hentry
    · have hthere' := hgrows.tree _ _ hthere
      rw [← hpaved.ownAt_eq (by simp [hthere])]
      refine hwithin.ownAt_of_file hthere' ?_
      rintro ⟨rest, rfl⟩
      cases rest with
      | nil => exact hother [] rfl (by simp [Node.kindAt, hnode, hkind])
      | cons key rest => exact hmeets (kindAt_directory_of_nonempty hthere')
  · rw [run_copyFile_of_sameEntry hfile hnul hfree (hnames'.sameEntry hto hnode' hplain)] at hrun
    cases hrun

end

end BuildRunner
