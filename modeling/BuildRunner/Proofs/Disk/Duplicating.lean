import BuildRunner.Proofs.Disk.Placing

/-!
# Copies of directories

The copy of a directory changes nothing but at its place and below, whatever it ends with.  If it
succeeds, every entry below the source is found at the same place below the copy.  What the copy did
not find in the source stays there as it was.
-/

namespace BuildRunner

namespace Disk

variable {d d' t : Disk} {source target rest : Location}

/-! ## Entries that are duplicated -/

/-- At a location below two directories, what the one holds before is what the other holds after; the
null device counts for nothing.  Where the one holds nothing the other one is as it was. -/
structure CopiesAt (source target : Location) (d d' : Disk) (rest : Location) : Prop where
  same : ∀ entry, d.tree.ownAt (source ++ rest) = some entry → entry ≠ .null →
    d'.tree.ownAt (target ++ rest) = some entry
  spared : d.tree.ownAt (source ++ rest) = none →
    d'.tree.ownAt (target ++ rest) = d.tree.ownAt (target ++ rest)

/-- What is at or below a location is duplicated at and below another one. -/
def Duplicates (source target : Location) (d d' : Disk) : Prop :=
  ∀ rest, CopiesAt source target d d' rest

namespace CopiesAt

/-- What happens elsewhere before a copy does not matter to it. -/
theorem of_before (hcopies : CopiesAt source target t d' rest)
    (hsource : t.tree.ownAt (source ++ rest) = d.tree.ownAt (source ++ rest))
    (htarget : t.tree.ownAt (target ++ rest) = d.tree.ownAt (target ++ rest)) :
    CopiesAt source target d d' rest where
  same := by rw [← hsource]; exact hcopies.same
  spared := by rw [← hsource, ← htarget]; exact hcopies.spared

theorem of_after (hcopies : CopiesAt source target d t rest)
    (hafter : d'.tree.ownAt (target ++ rest) = t.tree.ownAt (target ++ rest)) :
    CopiesAt source target d d' rest where
  same := by rw [hafter]; exact hcopies.same
  spared := by rw [hafter]; exact hcopies.spared

end CopiesAt

/-- An entry that is no directory is duplicated where it is put in place of nothing or of one of its
kind. -/
theorem duplicates_of_leaf {entry node : Node} (hentry : d.tree.get? source = some entry)
    (hleaf : entry.kind ≠ .directory) (hnode : d'.tree.get? target = some node)
    (hleaf' : node.kind ≠ .directory) (hsame : entry ≠ .null → node = entry)
    (hfree : d.tree.kindAt target ≠ some .directory) : d.Duplicates source target d' := by
  intro rest
  cases rest with
  | nil =>
      refine ⟨fun own hown hnull => ?_, fun hnone => ?_⟩
      · rw [List.append_nil, Node.ownAt, hentry] at hown
        obtain rfl := Option.some.inj hown
        have hother : entry ≠ .null := by
          rintro rfl
          exact hnull rfl
        rw [List.append_nil, Node.ownAt, hnode, hsame hother]
        rfl
      · rw [List.append_nil, Node.ownAt, hentry] at hnone
        cases hnone
  | cons key rest =>
      have hsource : d.tree.kindAt source ≠ some .directory := by
        rw [Node.kindAt, hentry]
        exact fun hkind => hleaf (Option.some.inj hkind)
      have htarget : d'.tree.kindAt target ≠ some .directory := by
        rw [Node.kindAt, hnode]
        exact fun hkind => hleaf' (Option.some.inj hkind)
      refine ⟨fun own hown _ => ?_, fun _ => ?_⟩
      · rw [Node.ownAt_below hsource] at hown
        cases hown
      · rw [Node.ownAt_below htarget, Node.ownAt_below hfree]

/-! ## Places that a copy fits into -/

/-- A copy meets no links and no special files, and a directory only where there is one in the
source. -/
structure Fits (source target : Location) (d : Disk) : Prop where
  apart : Location.Apart target source
  room : ∀ rest kind there, d.tree.kindAt (source ++ rest) = some kind →
    d.tree.kindAt (target ++ rest) = some there →
      there = .file ∨ (kind = .directory ∧ there = .directory)

namespace Fits

theorem below (hfits : Fits source target d) (name : String) :
    Fits (source ++ [name]) (target ++ [name]) d where
  apart := hfits.apart.append _ _
  room := by
    intro rest kind there
    rw [List.append_assoc, List.append_assoc]
    exact hfits.room _ kind there

theorem congr (hfits : Fits source target d)
    (hsource : ∀ rest, t.tree.kindAt (source ++ rest) = d.tree.kindAt (source ++ rest))
    (htarget : ∀ rest, t.tree.kindAt (target ++ rest) = d.tree.kindAt (target ++ rest)) :
    Fits source target t where
  apart := hfits.apart
  room := by
    intro rest kind there
    rw [hsource, htarget]
    exact hfits.room rest kind there

theorem of_vacant (hapart : Location.Apart target source)
    (hvacant : d.tree.kindAt target = none) : Fits source target d where
  apart := hapart
  room := by
    intro rest kind there _ hthere
    rw [Node.kindAt_eq_none_of_front (List.prefix_append _ _) hvacant] at hthere
    cases hthere

end Fits

/-- A directory that a path enters is copied to a place apart from it. -/
structure Ready (source : String) (origin : Location) (target : String) (copy : Location)
    (d : Disk) : Prop where
  proper : d.tree.Proper
  current : d.tree.kindAt d.cwd.base = some .directory
  source_nul : hasNul source = false
  target_nul : hasNul target = false
  enters : d.Enters source origin
  directory : d.tree.kindAt origin = some .directory
  apart : Location.Apart copy origin

theorem Ready.of_grown {source target : String} {origin copy : Location}
    (hready : Ready source origin target copy d) (hgrown : d.GrownFrom t) :
    Ready source origin target copy t :=
  { hready with
    proper := hgrown.proper
    current := by
      rw [hgrown.grows.current]
      exact hgrown.grows.tree _ _ hready.current
    enters := hready.enters.of_keeps hgrown.grows.tree.keepsWays hgrown.grows.current
    directory := hgrown.grows.tree _ _ hready.directory }

/-- An entry of the source is still to be copied, and its copy fits.  What a directory holds by now is
listed when it is copied. -/
structure Pending (origin copy : Location) (d : Disk) (entry : String × Node) : Prop where
  accepted : IsAccepted entry.1
  found : d.tree.ownAt (origin ++ [entry.1]) = some entry.2.own
  fits : Fits (origin ++ [entry.1]) (copy ++ [entry.1]) d

/-- The copy of another entry leaves an entry as it is. -/
theorem Pending.of_within {origin copy : Location} {entry : String × Node} {name : String}
    (hpending : Pending origin copy d entry) (hapart : Location.Apart copy origin)
    (hname : name ≠ entry.1) (hwithin : d.Within (copy ++ [name]) t) :
    Pending origin copy t entry where
  accepted := hpending.accepted
  found := (hwithin.ownAt_apart (hapart.append _ _)).trans hpending.found
  fits := by
    refine hpending.fits.congr (fun rest => ?_) fun rest => ?_
    · rw [List.append_assoc]
      exact hwithin.kindAt_apart (hapart.append _ _)
    · have hother := (Location.Apart.of_ne copy hname).append [] rest
      rw [List.append_nil] at hother
      exact hwithin.kindAt_apart hother

end Disk

/-! ## Copying entries -/

section

variable {levels : Nat} {existOk : Bool}
  (htrees : ∀ {source target : String} {origin copy : Location} {d d' : Disk}
    {result : Except Failure Unit}, d.Ready source origin target copy →
      d.Aims target copy → d.Fits origin copy →
        (DiskM.copyTreeFrom levels existOk source target).run d = (result, d') →
          d.Within copy d' ∧ (result = .ok () → d.Duplicates origin copy d'))
  {source target : String} {origin copy : Location} {d d' : Disk}

/-- The path of a name behind a directory aims at the place of the name, unless there is something
else than a directory. -/
theorem Disk.Enters.aims_join {base : Location} {name : String} (henters : d.Enters target base)
    (hbase : d.tree.kindAt base = some .directory) (hname : Path.IsName name.toList)
    (hfree : d.tree.kindAt (base ++ [name]) = none ∨
      d.tree.kindAt (base ++ [name]) = some .directory) :
    d.Aims (Path.join target name) (base ++ [name]) := by
  obtain ⟨left, hway⟩ := henters.way
  have hdot : name ≠ "." := by
    rintro rfl
    exact hname.ne_dot rfl
  have hdotdot : name ≠ ".." := by
    rintro rfl
    exact hname.ne_dotdot rfl
  have hstep : base.along [name] = base ++ [name] := by
    rw [Location.along_cons, Location.along_nil, Location.step, if_neg hdot, if_neg hdotdot]
  refine ⟨Path.join_ne_empty hname, pathNames target, [name], base, left,
    pathNames_join hname, ?_, ⟨by simpa using Ne.symm hdotdot, fun front hfront => ?_⟩,
    hstep.symm⟩
  · rw [startPlace_of_front henters.ne_empty (prefix_join hname target)]
    exact hway
  · rcases List.prefix_cons_iff.mp hfront with rfl | ⟨rest, rfl, hrest⟩
    · exact Or.inr hbase
    · rw [List.prefix_nil] at hrest
      rw [hrest, hstep]
      exact hfree

theorem Disk.Enters.noRoom_join {base : Location} {name : String} (henters : d.Enters target base)
    (hname : Path.IsName name.toList) (htaken : d.tree.kindAt (base ++ [name]) ≠ none) :
    d.NoRoom (Path.join target name) := by
  obtain ⟨left, hway⟩ := henters.way
  intro front last parent links hinit henter hdot hdotdot
  rw [pathNames_join hname] at hinit
  rw [startPlace_of_front henters.ne_empty (prefix_join hname target)] at henter
  rcases List.prefix_concat_iff.mp hinit with hwhole | hbefore
  · obtain ⟨rfl, hlast⟩ := List.append_inj' hwhole rfl
    rw [hway] at henter
    cases henter
    rwa [show last = name by simpa using hlast]
  · exact kindAt_ne_none_of_enter hway hbefore henter hdot hdotdot

theorem copied_of_link {name linked : String} {result : Except Failure Unit}
    (hready : d.Ready source origin target copy) (hto : d.Enters target copy)
    (hcopy : d.tree.kindAt copy = some .directory)
    (hpending : d.Pending origin copy (name, .link linked))
    (hrun : (DiskM.copyEntry levels existOk source target name (.link linked)).run d =
      (result, d')) :
    d.Within (copy ++ [name]) d' ∧
      (result = .ok () → d.Duplicates (origin ++ [name]) (copy ++ [name]) d') := by
  obtain ⟨haccepted, hown, -⟩ := hpending
  have hfound := Node.get?_of_ownAt hown (by simp [Node.kind])
  have hunchanged : ∀ {failure : Failure}, result = .error failure → d' = d →
      d.Within (copy ++ [name]) d' ∧
        (result = .ok () → d.Duplicates (origin ++ [name]) (copy ++ [name]) d') := by
    rintro failure rfl rfl
    refine ⟨(isFrame_within _).refl d', ?_⟩
    rintro ⟨⟩
  rcases run_bind_of_unchanged (respects_ask isFrame_eq _ _) hrun with
    ⟨hsame, failure, hfailed⟩ | ⟨read, hread, hrun⟩
  · exact hunchanged hfailed hsame
  rw [run_change₂] at hrun
  split at hrun
  · cases hrun
    exact hunchanged rfl rfl
  cases hmake : d.makeLink read (Path.join target name) with
  | error code =>
      rw [hmake] at hrun
      cases hrun
      exact hunchanged rfl rfl
  | ok made =>
      rw [hmake] at hrun
      cases hrun
      obtain ⟨place, hstatus⟩ := Disk.readLink_inv (DiskM.ask_eq_ok hread)
      have hnames := hready.enters.names hready.source_nul haccepted
        (Disk.checkPath_of_status hstatus)
      rw [hnames.status hfound (by simp [Node.kind]) (by simp)] at hstatus
      obtain ⟨-, hlinked⟩ := Prod.mk.inj (Except.ok.inj hstatus)
      obtain rfl := Node.link.inj hlinked
      obtain ⟨parent, last, htip, -, -, hfree, rfl⟩ := Disk.makeLink_inv hmake
      obtain ⟨-, other, name', hplace, -, -, -, htip'⟩ :=
        hto.names hready.target_nul haccepted (Disk.tip_eq_ok_iff.mp htip).1
      rw [htip] at htip'
      cases htip'
      obtain ⟨rfl, hlast⟩ := List.append_inj' hplace rfl
      obtain rfl : name = last := by simpa using hlast
      have hentries : (Node.link linked).entries = [] := rfl
      have hbelow : ¬parent.base ++ [name] <+: parent.base := fun h => by simpa using h.length_le
      refine ⟨Disk.within_put hentries hfree, fun _ => ?_⟩
      have hmade : (d.tree.put parent.base name (.link linked)).get? (parent.base ++ [name]) =
          some (.link linked) :=
        (Node.get?_put _ _ _ hentries hfree hbelow).trans (if_pos ⟨rfl, hcopy⟩)
      exact Disk.duplicates_of_leaf hfound (by simp [Node.kind]) hmade (by simp [Node.kind])
        (fun _ => rfl) (by simp [hfree])

theorem copied_of_file {name : String} {entry : Node} {result : Except Failure Unit}
    (hready : d.Ready source origin target copy) (hto : d.Enters target copy)
    (hpending : d.Pending origin copy (name, entry)) (hplain : ¬entry.kind.IsWay)
    (hrun : (DiskM.copyFile (.ofEntry source name) (Path.join target name)).run d =
      (result, d')) :
    d.Within (copy ++ [name]) d' ∧
      (result = .ok () → d.Duplicates (origin ++ [name]) (copy ++ [name]) d') := by
  obtain ⟨haccepted, hown, hfits⟩ := hpending
  have hleaf : entry.kind ≠ .directory := by
    intro hkind
    exact hplain (by rw [hkind]; trivial)
  have hfound := Node.get?_of_ownAt hown hleaf
  have hfree : d.tree.kindAt (copy ++ [name]) = none ∨
      d.tree.kindAt (copy ++ [name]) = some .file := by
    cases hthere : d.tree.kindAt (copy ++ [name]) with
    | none => exact Or.inl rfl
    | some there =>
        have hroom := hfits.room [] entry.kind there (by rw [List.append_nil, Node.kindAt, hfound]; rfl)
          (by rw [List.append_nil]; exact hthere)
        rcases hroom with rfl | ⟨hdirectory, -⟩
        · exact Or.inr rfl
        · exact absurd hdirectory hleaf
  have hfrom : d.WouldName (DiskM.CopySource.ofEntry source name).path (origin ++ [name]) :=
    fun hcheck => hready.enters.names hready.source_nul haccepted hcheck
  obtain ⟨hwithin, hok⟩ := copyFile_named hready.current
    (hasNul_join hready.target_nul haccepted.hasNul) hfrom
    (fun hcheck => hto.names hready.target_nul haccepted hcheck) hfound hplain hfits.apart hfree hrun
  refine ⟨hwithin, fun hresult => ?_⟩
  obtain ⟨node, hnode, hkind, hsame⟩ := hok hresult
  refine Disk.duplicates_of_leaf hfound hleaf hnode (by simp [hkind]) hsame ?_
  rcases hfree with hnone | hfile
  · simp [hnone]
  · simp [hfile]

include htrees in
theorem copied_of_directory {name : String} {es : Node.Entries} {modified : Option Int}
    {result : Except Failure Unit} (hready : d.Ready source origin target copy)
    (hto : d.Enters target copy) (hcopy : d.tree.kindAt copy = some .directory)
    (hpending : d.Pending origin copy (name, .dir es modified))
    (hrun : (DiskM.copyTreeFrom levels existOk (Path.join source name)
      (Path.join target name)).run d = (result, d')) :
    d.Within (copy ++ [name]) d' ∧
      (result = .ok () → d.Duplicates (origin ++ [name]) (copy ++ [name]) d') := by
  obtain ⟨haccepted, hfound, hfits⟩ := hpending
  have hkind : d.tree.kindAt (origin ++ [name]) = some .directory := by
    rw [Node.kindAt_eq_ownAt, hfound]
    rfl
  have hsource := hasNul_join hready.source_nul haccepted.hasNul
  have htarget := hasNul_join hready.target_nul haccepted.hasNul
  have hinside : d.Ready (Path.join source name) (origin ++ [name]) (Path.join target name)
      (copy ++ [name]) :=
    { hready with
      source_nul := hsource
      target_nul := htarget
      enters := hready.enters.join haccepted hkind
      directory := hkind
      apart := hready.apart.append _ _ }
  by_cases hfile : d.tree.kindAt (copy ++ [name]) = some .file
  · have hroom := hto.noRoom_join haccepted.toIsName (by rw [hfile]; simp)
    have hnames : d.WouldName (Path.join target name) (copy ++ [name]) := fun hcheck =>
      hto.names hready.target_nul haccepted hcheck
    obtain ⟨rfl, failure, rfl⟩ := copyTreeFrom_of_noRoom hready.proper hsource htarget hroom
      (hnames.isDirectory_eq_false (Or.inr hfile)) hrun
    refine ⟨(isFrame_within _).refl d', ?_⟩
    rintro ⟨⟩
  · refine htrees hinside (hto.aims_join hcopy haccepted.toIsName ?_) hfits hrun
    cases hthere : d.tree.kindAt (copy ++ [name]) with
    | none => exact Or.inl rfl
    | some there =>
        have hroom := hfits.room [] .directory there (by rw [List.append_nil]; exact hkind)
          (by rw [List.append_nil]; exact hthere)
        rcases hroom with rfl | ⟨-, rfl⟩
        · exact absurd hthere hfile
        · exact Or.inr rfl

include htrees in
theorem copied_of_copyEntry {entry : String × Node} {result : Except Failure Unit}
    (hready : d.Ready source origin target copy) (hto : d.Enters target copy)
    (hcopy : d.tree.kindAt copy = some .directory) (hpending : d.Pending origin copy entry)
    (hrun : (DiskM.copyEntry levels existOk source target entry.1 entry.2).run d = (result, d')) :
    d.Within (copy ++ [entry.1]) d' ∧
      (result = .ok () → d.Duplicates (origin ++ [entry.1]) (copy ++ [entry.1]) d') := by
  obtain ⟨name, node⟩ := entry
  cases node with
  | link linked => exact copied_of_link hready hto hcopy hpending hrun
  | dir es modified => exact copied_of_directory htrees hready hto hcopy hpending hrun
  | file data executable modified => exact copied_of_file hready hto hpending id hrun
  | pipe => exact copied_of_file hready hto hpending id hrun
  | null => exact copied_of_file hready hto hpending id hrun

/-- Copied entries are duplicated if no fault is added, and all other entries are as they were. -/
structure Disk.EntriesCopied (origin copy : Location) (d d' : Disk) (names : List String) : Prop where
  copied : ∀ name ∈ names, ∀ rest, d.CopiesAt origin copy d' (name :: rest)
  others : ∀ name, name ∉ names → ∀ rest,
    d'.tree.ownAt (copy ++ name :: rest) = d.tree.ownAt (copy ++ name :: rest)

theorem Disk.EntriesCopied.cons {name : String} {names : List String} {t : Disk}
    (hapart : Location.Apart copy origin) (hname : name ∉ names)
    (hwithin : d.Within (copy ++ [name]) t)
    (hfirst : d.Duplicates (origin ++ [name]) (copy ++ [name]) t)
    (hrest : t.EntriesCopied origin copy d' names) :
    d.EntriesCopied origin copy d' (name :: names) where
  copied := by
    intro other hother rest
    rcases List.mem_cons.mp hother with rfl | hother
    · have hcopies := hfirst rest
      have hhere : d.CopiesAt origin copy t (other :: rest) := by
        constructor
        · simpa using hcopies.same
        · simpa using hcopies.spared
      exact hhere.of_after (hrest.others other hname rest)
    · have hne : name ≠ other := by
        rintro rfl
        exact hname hother
      have hsource := (hapart.append [name] (other :: rest))
      have htarget := (Location.Apart.of_ne copy hne).append [] rest
      rw [List.append_nil, List.append_assoc] at htarget
      exact (hrest.copied other hother rest).of_before (hwithin.ownAt_apart hsource)
        (hwithin.ownAt_apart htarget)
  others := by
    intro other hother rest
    rw [List.mem_cons, not_or] at hother
    have htarget := (Location.Apart.of_ne copy (Ne.symm hother.1)).append [] rest
    rw [List.append_nil, List.append_assoc] at htarget
    exact (hrest.others other hother.2 rest).trans (hwithin.ownAt_apart htarget)

include htrees in
/-- Faults are only ever added, and if none is added every entry has been copied. -/
theorem copied_of_copyEntries {entries : Node.Entries} {faults : List CopyFault}
    {result : Except Failure (List CopyFault)} (hready : d.Ready source origin target copy)
    (hto : d.Enters target copy) (hcopy : d.tree.kindAt copy = some .directory)
    (hdistinct : (entries.map Prod.fst).Nodup)
    (hpending : ∀ entry ∈ entries, d.Pending origin copy entry)
    (hrun : (DiskM.copyEntries levels existOk source target faults entries).run d =
      (result, d')) :
    d.Within copy d' ∧ ∀ found, result = .ok found → ∃ more, found = faults ++ more ∧
      (more = [] → d.EntriesCopied origin copy d' (entries.map Prod.fst)) := by
  induction entries generalizing faults d with
  | nil =>
      cases hrun
      refine ⟨(isFrame_within _).refl d', ?_⟩
      rintro _ ⟨⟩
      refine ⟨[], (List.append_nil _).symm, fun _ => ⟨?_, fun _ _ _ => rfl⟩⟩
      rintro name ⟨⟩
  | cons entry entries ih =>
      have hfirst := hpending entry List.mem_cons_self
      rw [List.map_cons, List.nodup_cons] at hdistinct
      have hends : EndsWith d.GrownFrom (fun _ => True) IsCopyFailure
          (DiskM.copyEntry levels existOk source target entry.1 entry.2) :=
        endsWith_copyEntry (endsWith_copyTreeFrom levels existOk) hready.source_nul
          hready.target_nul hfirst.accepted entry.2
      rw [← Prod.eta entry, DiskM.run_copyEntries_cons] at hrun
      rcases hcopied : (DiskM.copyEntry levels existOk source target entry.1 entry.2).run d with
        ⟨first, t⟩
      obtain ⟨hwithin, hduplicates⟩ := copied_of_copyEntry htrees hready hto hcopy hfirst hcopied
      have hgrown := hends.state (.self hready.proper) hcopied
      have hbelow : d.Within copy t := hwithin.mono (List.prefix_append _ _)
      have hready' := hready.of_grown hgrown
      have hto' : t.Enters target copy :=
        hto.of_keeps hgrown.grows.tree.keepsWays hgrown.grows.current
      have hcopy' : t.tree.kindAt copy = some .directory := hgrown.grows.tree _ _ hcopy
      have hpending' : ∀ other ∈ entries, t.Pending origin copy other := fun other hother =>
        (hpending other (List.mem_cons_of_mem _ hother)).of_within hready.apart
          (fun hsame => hdistinct.1 (List.mem_map.mpr ⟨other, hother, hsame.symm⟩)) hwithin
      rw [hcopied] at hrun
      rcases first with failure | _
      · have hfailure := hends.failure (.self hready.proper) hcopied
        dsimp only at hrun
        split at hrun
        · next hsystem =>
            obtain ⟨hthen, hfound⟩ := ih hready' hto' hcopy' hdistinct.2 hpending' hrun
            refine ⟨(isFrame_within copy).trans hbelow hthen, fun found hresult => ?_⟩
            obtain ⟨more, rfl, -⟩ := hfound found hresult
            refine ⟨_, List.append_assoc _ _ _, fun hnil => ?_⟩
            have hfault : IsFault failure := by
              refine hfailure.resolve_right ?_
              rintro rfl
              simp [Failure.isSystem, Failure.reason?] at hsystem
            exact absurd (List.append_eq_nil_iff.mp hnil).1 (faultsOf_ne_nil hfault _ _)
        · cases hrun
          refine ⟨hbelow, ?_⟩
          rintro _ ⟨⟩
      · obtain ⟨hthen, hfound⟩ := ih hready' hto' hcopy' hdistinct.2 hpending' hrun
        refine ⟨(isFrame_within copy).trans hbelow hthen, fun found hresult => ?_⟩
        obtain ⟨more, hmore, hcopies⟩ := hfound found hresult
        exact ⟨more, hmore, fun hnil =>
          .cons hready.apart hdistinct.1 hwithin (hduplicates rfl) (hcopies hnil)⟩

end

/-! ## Copying directories -/

section

variable {source target : String} {origin copy : Location} {d d' : Disk}

theorem Node.ownAt_of_not_mem {tree node : Node} {location : Location} {key : String}
    (hnode : tree.get? location = some node) (hkey : key ∉ node.entries.map Prod.fst)
    (rest : Location) : tree.ownAt (location ++ key :: rest) = none := by
  have hlookup : node.entries.lookup key = none := by
    rw [List.lookup_eq_none_iff]
    intro entry hentry
    rw [bne_iff_ne]
    rintro rfl
    exact hkey (List.mem_map.mpr ⟨entry, hentry, rfl⟩)
  rw [Node.ownAt, Node.get?_append, hnode, Option.bind_some, Node.get?, hlookup]
  rfl

/-- Setting the status of a directory touches nothing that it holds. -/
theorem Node.ownAt_modify_inside {f : Node → Node}
    (hentries : ∀ node, (f node).entries = node.entries) (tree : Node) (location : Location)
    (key : String) (rest : Location) :
    (tree.modify f location).ownAt (location ++ key :: rest) =
      tree.ownAt (location ++ key :: rest) := by
  rw [Node.ownAt, Node.ownAt, Node.get?_modify_append, Node.get?_append]
  cases tree.get? location with
  | none => rfl
  | some node => rw [Option.bind_some, Option.bind_some, Node.get?, Node.get?, hentries]

/-- The status of a directory is set where the path of the copy leads. -/
theorem copied_of_copyStatus {result : Except Failure Unit}
    (hready : d.Ready source origin target copy) (hto : d.Enters target copy)
    (hcopy : d.tree.kindAt copy = some .directory)
    (hrun : (DiskM.copyStatus source target).run d = (result, d')) :
    d.Within copy d' ∧
      (∀ key rest, d'.tree.ownAt (copy ++ key :: rest) = d.tree.ownAt (copy ++ key :: rest)) ∧
        (result = .ok () → d'.tree.ownAt copy = d.tree.ownAt origin) := by
  rcases DiskM.copyStatus_cases hrun with ⟨rfl, failure, rfl⟩ | ⟨rfl, place, node, hstatus, hset⟩
  · refine ⟨(isFrame_within copy).refl d', fun _ _ => rfl, ?_⟩
    rintro ⟨⟩
  · obtain ⟨there, found, hfound, rfl⟩ := Disk.copyStatus_inv hset
    obtain ⟨rfl, -⟩ := hto.place_eq hfound
    obtain ⟨rfl, -⟩ := hready.enters.place_eq hstatus
    have hnode := Disk.get?_of_status hready.current hstatus rfl
    refine ⟨Disk.within_modify _ _, fun key rest => ?_, fun _ => ?_⟩
    · exact Node.ownAt_modify_inside (Node.entries_withStatus node) _ _ _ _
    · have horigin := hready.directory
      rw [Node.kindAt, hnode] at horigin
      obtain ⟨held, hheld, hdirectory⟩ := Option.map_eq_some_iff.mp hcopy
      show (d.tree.modify (Node.withStatus node) copy).ownAt copy = _
      rw [Node.ownAt, Node.get?_modify_self, hheld, Node.ownAt, hnode]
      cases node with
      | dir es modified =>
          cases held with
          | dir es' modified' => rfl
          | _ => cases hdirectory
      | _ => simp [Node.kind] at horigin

/-- Listed entries are copied into a directory that is there, and then its status is that of the
source. -/
theorem copied_of_listed {levels : Nat} {existOk : Bool} {entries : Node.Entries}
    {result : Except Failure Unit}
    (htrees : ∀ {source target : String} {origin copy : Location} {d d' : Disk}
      {result : Except Failure Unit}, d.Ready source origin target copy →
        d.Aims target copy → d.Fits origin copy →
          (DiskM.copyTreeFrom levels existOk source target).run d = (result, d') →
            d.Within copy d' ∧ (result = .ok () → d.Duplicates origin copy d'))
    (hready : d.Ready source origin target copy) (hto : d.Enters target copy)
    (hcopy : d.tree.kindAt copy = some .directory) (hdistinct : (entries.map Prod.fst).Nodup)
    (hpending : ∀ entry ∈ entries, d.Pending origin copy entry)
    (hrun : (DiskM.copyInto levels existOk source target entries).run d = (result, d')) :
    d.Within copy d' ∧ (result = .ok () →
      d.EntriesCopied origin copy d' (entries.map Prod.fst) ∧
        d'.tree.ownAt copy = d.tree.ownAt origin) := by
  unfold DiskM.copyInto at hrun
  rw [run_bind] at hrun
  rcases hcopies : (DiskM.copyEntries levels existOk source target [] entries).run d with ⟨first, t⟩
  obtain ⟨hwithin, hcopied⟩ := copied_of_copyEntries htrees hready hto hcopy hdistinct hpending
    hcopies
  rw [hcopies] at hrun
  rcases first with failure | faults
  · cases hrun
    refine ⟨hwithin, ?_⟩
    rintro ⟨⟩
  · have hends : EndsWith d.GrownFrom (fun _ => True) IsCopyFailure
        (DiskM.copyEntries levels existOk source target [] entries) :=
      endsWith_copyEntries (endsWith_copyTreeFrom levels existOk) hready.source_nul
        hready.target_nul [] fun entry hentry => (hpending entry hentry).accepted
    have hgrown := hends.state (.self hready.proper) hcopies
    have hready' := hready.of_grown hgrown
    obtain ⟨status, hstatus, hok⟩ := finishCopy_cases hready'.proper hready.source_nul
      hready.target_nul hrun
    obtain ⟨hthen, hinside, hown⟩ := copied_of_copyStatus hready'
      (hto.of_keeps hgrown.grows.tree.keepsWays hgrown.grows.current)
      (hgrown.grows.tree _ _ hcopy) hstatus
    refine ⟨(isFrame_within copy).trans hwithin hthen, fun hresult => ?_⟩
    obtain ⟨rfl, hset⟩ := hok hresult
    obtain ⟨more, hmore, hentries⟩ := hcopied _ rfl
    have hall := hentries (by simpa using hmore.symm)
    refine ⟨⟨fun name hname rest => (hall.copied name hname rest).of_after (hinside name rest),
      fun name hname rest => (hinside name rest).trans (hall.others name hname rest)⟩, ?_⟩
    rw [hown hset]
    exact hwithin.ownAt_apart hready.apart

/-- What is copied into a directory that is there is found below it, if the copy succeeds. -/
theorem copied_of_copyInto {levels : Nat} {existOk : Bool} {node : Node}
    {result : Except Failure Unit}
    (htrees : ∀ {source target : String} {origin copy : Location} {d d' : Disk}
      {result : Except Failure Unit}, d.Ready source origin target copy →
        d.Aims target copy → d.Fits origin copy →
          (DiskM.copyTreeFrom levels existOk source target).run d = (result, d') →
            d.Within copy d' ∧ (result = .ok () → d.Duplicates origin copy d'))
    (hready : d.Ready source origin target copy) (hto : d.Enters target copy)
    (hcopy : d.tree.kindAt copy = some .directory) (hnode : d.tree.get? origin = some node)
    (hfits : d.Fits origin copy)
    (hrun : (DiskM.copyInto levels existOk source target node.entries).run d = (result, d')) :
    d.Within copy d' ∧ (result = .ok () → d.Duplicates origin copy d') := by
  have hpending : ∀ entry ∈ node.entries, d.Pending origin copy entry := fun entry hentry =>
    have hfound := hready.proper.get?_of_mem hnode hentry
    ⟨hready.proper.accepted _ _ (by rw [Node.kindAt, hfound]; rfl) entry.1 (by simp),
      by rw [Node.ownAt, hfound]; rfl, hfits.below entry.1⟩
  obtain ⟨hwithin, hok⟩ := copied_of_listed htrees hready hto hcopy
    (hready.proper.distinct origin node hnode) hpending hrun
  refine ⟨hwithin, fun hresult => ?_⟩
  obtain ⟨hall, hown⟩ := hok hresult
  intro rest
  cases rest with
  | nil =>
      refine ⟨fun own hentry _ => ?_, fun hnone => ?_⟩
      · rw [List.append_nil] at hentry ⊢
        rw [hown, hentry]
      · rw [List.append_nil, Node.ownAt, hnode] at hnone
        cases hnone
  | cons key rest =>
      by_cases hkey : key ∈ node.entries.map Prod.fst
      · exact hall.copied key hkey rest
      · have hnone := Node.ownAt_of_not_mem hnode hkey rest
        refine ⟨fun own hown _ => ?_, fun _ => hall.others key hkey rest⟩
        rw [hnone] at hown
        cases hown

/-- A copy of a directory changes nothing but at its place and below.  If it succeeds the source is
duplicated there, and with `existOk` off nothing was there before. -/
theorem copied_of_copyTreeFrom {levels : Nat} {existOk : Bool} {result : Except Failure Unit}
    (hready : d.Ready source origin target copy) (haims : d.Aims target copy)
    (hfits : d.Fits origin copy)
    (hrun : (DiskM.copyTreeFrom levels existOk source target).run d = (result, d')) :
    d.Within copy d' ∧ (result = .ok () →
      (existOk = false → d.tree.kindAt copy = none) ∧ d.Duplicates origin copy d') := by
  induction levels generalizing source target origin copy d d' result with
  | zero =>
      rw [DiskM.copyTreeFrom_zero] at hrun
      cases hrun
      refine ⟨(isFrame_within copy).refl _, ?_⟩
      rintro ⟨⟩
  | succ levels ih =>
      rw [DiskM.copyTreeFrom_succ] at hrun
      rcases run_bind_of_unchanged (respects_ask isFrame_eq _ _) hrun with
        ⟨rfl, failure, rfl⟩ | ⟨⟨place, node⟩, hstatus, hrun⟩
      · refine ⟨(isFrame_within copy).refl _, ?_⟩
        rintro ⟨⟩
      obtain ⟨rfl, -⟩ := hready.enters.place_eq (DiskM.ask_eq_ok hstatus)
      have hnode := Disk.get?_of_status hready.current (DiskM.ask_eq_ok hstatus) rfl
      dsimp only at hrun hnode
      split at hrun
      · cases hrun
        refine ⟨(isFrame_within copy).refl _, ?_⟩
        rintro ⟨⟩
      rw [run_bind] at hrun
      rcases hmade : (DiskM.makeDirectories existOk target).run d with ⟨first, t⟩
      obtain ⟨hway, henters, hfresh, -⟩ :=
        wayMade_of_makeDirectories hready.proper hready.current hready.target_nul haims hmade
      rw [hmade] at hrun
      rcases first with failure | _
      · cases hrun
        refine ⟨hway.within, ?_⟩
        rintro ⟨⟩
      have hends : EndsWith d.GrownFrom (fun _ => True) IsFault
          (DiskM.makeDirectories existOk target) :=
        endsWith_makeDirectories existOk hready.target_nul
      have hready' := hready.of_grown (hends.state (.self hready.proper) hmade)
      have hto := henters (Or.inl rfl)
      have hcopy : t.tree.kindAt copy = some .directory := by
        obtain ⟨left, hentered⟩ := hto.way
        exact kindAt_of_enter (kindAt_startPlace target hready'.current) hentered
      have horigin : ∀ rest, t.tree.get? (origin ++ rest) = d.tree.get? (origin ++ rest) := by
        intro rest
        have hapart := hready.apart.append [] rest
        rw [List.append_nil] at hapart
        exact hway.within.apart hapart
      have hbelow : ∀ key rest,
          t.tree.get? (copy ++ key :: rest) = d.tree.get? (copy ++ key :: rest) := fun key rest =>
        hway.apart fun hinit => by simpa using hinit.length_le
      have hfits' : t.Fits origin copy := by
        refine ⟨hready.apart, fun rest kind there hkind hthere => ?_⟩
        rw [Node.kindAt, horigin] at hkind
        cases rest with
        | nil =>
            rw [List.append_nil] at hkind hthere
            rw [hcopy] at hthere
            rw [← Node.kindAt, hready.directory] at hkind
            cases hkind
            cases hthere
            exact Or.inr ⟨rfl, rfl⟩
        | cons key rest =>
            rw [Node.kindAt, hbelow] at hthere
            exact hfits.room _ kind there hkind hthere
      have hnode' : t.tree.get? origin = some node := by
        have hsame := horigin []
        rw [List.append_nil] at hsame
        rw [hsame, hnode]
      obtain ⟨hwithin, hok⟩ := copied_of_copyInto
        (fun hr ha hf hrun => ⟨(ih hr ha hf hrun).1, fun hok => ((ih hr ha hf hrun).2 hok).2⟩)
        hready' hto hcopy hnode' hfits' hrun
      refine ⟨(isFrame_within copy).trans hway.within hwithin, fun hresult =>
        ⟨hfresh rfl, fun rest => ?_⟩⟩
      have hcopies := hok hresult rest
      have hsource : t.tree.ownAt (origin ++ rest) = d.tree.ownAt (origin ++ rest) := by
        rw [Node.ownAt, horigin, Node.ownAt]
      cases rest with
      | nil =>
          refine ⟨by rw [← hsource]; exact hcopies.same, fun hnone => ?_⟩
          rw [List.append_nil, Node.ownAt, hnode] at hnone
          cases hnone
      | cons key rest =>
          exact hcopies.of_before hsource (by rw [Node.ownAt, hbelow, Node.ownAt])

end

end BuildRunner
