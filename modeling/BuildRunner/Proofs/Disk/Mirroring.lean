import BuildRunner.Proofs.Disk.Duplicating
import BuildRunner.Proofs.Disk.Paving

/-!
# What a copy mirrors

A directory may be copied onto or into itself, so that what is listed later was made by the copy.
Still every directory and every link that a copy makes stands where its counterpart stands in the
source.  This holds as long as no directory of the source meets a link in the copy.
-/

namespace BuildRunner

/-! ## Files -/

/-- The disk has grown by no directory and no link. -/
structure Disk.AddsNoWay (d d' : Disk) : Prop where
  grows : d.Grows d'
  ways : d'.tree.KeepsWays d.tree

theorem isFrame_addsNoWay : IsFrame Disk.AddsNoWay where
  refl d := ⟨isFrame_diskGrows.refl d, .refl d.tree⟩
  trans h h' := ⟨isFrame_diskGrows.trans h.grows h'.grows, h'.ways.trans h.ways⟩

namespace Disk

variable {d d' : Disk} {path : String}

theorem addsNoWay_of_store {data : Text.Bytes} (hnul : hasNul path = false)
    (hstore : d.store data path = .ok d') : d.AddsNoWay d' := by
  refine ⟨grows_of_store hnul hstore, fun location kind hway hkind => ?_⟩
  obtain ⟨parent, name, -, -, ⟨hfree, rfl⟩ | ⟨-, rfl⟩⟩ := store_inv hstore
  · rw [Node.kindAt_put _ _ _ rfl hfree] at hkind
    split_ifs at hkind with hnew
    · cases hkind
      exact hway.elim
    · exact hkind
  · rwa [Node.kindAt_modify (Node.kind_withData data) (Node.entries_withData data)] at hkind

theorem addsNoWay_of_copyStatus {source : Node} (hcopy : d.copyStatus source path = .ok d') :
    d.AddsNoWay d' := by
  refine ⟨grows_of_copyStatus hcopy, fun location kind hway hkind => ?_⟩
  obtain ⟨place, node, -, rfl⟩ := copyStatus_inv hcopy
  split_ifs at hkind
  · rwa [Node.kindAt_modify (Node.kind_withStatus source) (Node.entries_withStatus source)] at hkind
  · exact hkind

end Disk

theorem addsNoWay_copyStatus (source target : String) :
    Respects Disk.AddsNoWay (DiskM.copyStatus source target) :=
  DiskM.respects_copyStatus isFrame_addsNoWay source fun _ _ _ => Disk.addsNoWay_of_copyStatus

theorem addsNoWay_copyFile (source : DiskM.CopySource) (target : String) :
    Respects Disk.AddsNoWay (DiskM.copyFile source target) := by
  refine respects_bind isFrame_addsNoWay (respects_get isFrame_addsNoWay) fun d => ?_
  dsimp only
  refine respects_bind isFrame_addsNoWay ?_ fun _ => addsNoWay_copyStatus _ _
  exact DiskM.respects_copyBytes isFrame_addsNoWay source fun _ _ _ => Disk.addsNoWay_of_store

/-! ## Counterparts -/

namespace Disk

/-- Of the directories and links, only counterparts have been added: they stand in the copy, below
one of the names, where the same stands in the source. -/
structure Mirrors (origin copy : Location) (names : List String) (d d' : Disk) : Prop where
  grows : d.Grows d'
  mirrored : ∀ location kind, kind.IsWay → d.tree.kindAt location = none →
    d'.tree.kindAt location = some kind →
      ∃ name ∈ names, ∃ rest, location = copy ++ name :: rest ∧ copy ≠ origin ∧
        d'.tree.kindAt (origin ++ name :: rest) = some kind

variable {d t d' : Disk} {origin copy : Location} {names : List String}

theorem Mirrors.mono {others : List String} (hmirrors : d.Mirrors origin copy names d')
    (hnames : names ⊆ others) : d.Mirrors origin copy others d' := by
  refine ⟨hmirrors.grows, fun location kind hway hnone hkind => ?_⟩
  obtain ⟨name, hmem, hrest⟩ := hmirrors.mirrored location kind hway hnone hkind
  exact ⟨name, hnames hmem, hrest⟩

theorem AddsNoWay.mirrors (hadds : d.AddsNoWay d') (origin copy : Location)
    (names : List String) : d.Mirrors origin copy names d' := by
  refine ⟨hadds.grows, fun location kind hway hnone hkind => ?_⟩
  rw [hadds.ways location kind hway hkind] at hnone
  cases hnone

/-- What is mirrored one directory down is mirrored. -/
theorem Mirrors.of_below {name : String}
    (hmirrors : d.Mirrors (origin ++ [name]) (copy ++ [name]) names d') :
    d.Mirrors origin copy [name] d' := by
  refine ⟨hmirrors.grows, fun location kind hway hnone hkind => ?_⟩
  obtain ⟨other, -, rest, hlocation, hne, hsame⟩ := hmirrors.mirrored location kind hway hnone hkind
  refine ⟨name, List.mem_singleton_self name, other :: rest, ?_, ?_, ?_⟩
  · rw [hlocation, List.append_assoc, List.singleton_append]
  · rintro rfl
    exact hne rfl
  · rw [List.append_assoc, List.singleton_append] at hsame
    exact hsame

end Disk

theorem isFrame_mirrors (origin copy : Location) (names : List String) :
    IsFrame (Disk.Mirrors origin copy names) where
  refl d := (isFrame_addsNoWay.refl d).mirrors origin copy names
  trans := by
    intro d t d' h h'
    refine ⟨isFrame_diskGrows.trans h.grows h'.grows, fun location kind hway hnone hkind => ?_⟩
    cases hmiddle : t.tree.kindAt location with
    | none => exact h'.mirrored location kind hway hmiddle hkind
    | some other =>
        have hkept := h'.grows.tree _ _ hmiddle
        rw [hkind] at hkept
        cases hkept
        obtain ⟨name, hmem, rest, hlocation, hne, hsame⟩ :=
          h.mirrored location kind hway hnone hmiddle
        exact ⟨name, hmem, rest, hlocation, hne, h'.grows.tree _ _ hsame⟩

namespace Disk

variable {d t d' : Disk} {origin copy : Location} {names : List String}

/-- No directory of the source meets a link in the copy.  Where the source and the copy overlap, a
link in the copy stands where the source has something else already. -/
def Clear (origin copy : Location) (d : Disk) : Prop :=
  ∀ rest linked, d.tree.kindAt (copy ++ rest) = some (.link linked) →
    d.tree.kindAt (origin ++ rest) ≠ some .directory ∧
      (Location.Apart copy origin ∨ d.tree.kindAt (origin ++ rest) ≠ none)

theorem Clear.of_mirrors (hclear : d.Clear origin copy)
    (hmirrors : d.Mirrors origin copy names d') : d'.Clear origin copy := by
  intro rest linked hlink
  cases hbefore : d.tree.kindAt (copy ++ rest) with
  | none =>
      obtain ⟨name, -, below, hlocation, -, hsame⟩ :=
        hmirrors.mirrored _ (.link linked) trivial hbefore hlink
      rw [List.append_cancel_left hlocation, hsame]
      exact ⟨by simp, Or.inr (by simp)⟩
  | some kind =>
      have hkept := hmirrors.grows.tree _ _ hbefore
      rw [hlink] at hkept
      cases hkept
      obtain ⟨hdirectory, hover⟩ := hclear rest linked hbefore
      cases hthere : d.tree.kindAt (origin ++ rest) with
      | some other =>
          rw [hmirrors.grows.tree _ _ hthere]
          exact ⟨hthere ▸ hdirectory, Or.inr (by simp)⟩
      | none =>
          have hapart := hover.resolve_right fun hsome => hsome hthere
          refine ⟨fun hmade => ?_, Or.inl hapart⟩
          obtain ⟨name, -, below, hlocation, -⟩ :=
            hmirrors.mirrored _ .directory trivial hthere hmade
          exact (hapart.append (name :: below) rest).not_above ⟨[], by rw [hlocation, List.append_nil]⟩

theorem Clear.below (hclear : d.Clear origin copy) (name : String) :
    d.Clear (origin ++ [name]) (copy ++ [name]) := by
  intro rest linked hlink
  rw [List.append_assoc, List.singleton_append] at hlink ⊢
  obtain ⟨hdirectory, hover⟩ := hclear (name :: rest) linked hlink
  exact ⟨hdirectory, hover.imp_left fun hapart => hapart.append _ _⟩

/-- Two directories, one to be copied into the other, with paths that lead there. -/
structure Pairs (source : String) (origin : Location) (target : String) (copy : Location)
    (d : Disk) : Prop where
  proper : d.tree.Proper
  current : d.tree.kindAt d.cwd.base = some .directory
  source_nul : hasNul source = false
  target_nul : hasNul target = false
  source_enters : d.Enters source origin
  target_enters : d.Enters target copy
  source_directory : d.tree.kindAt origin = some .directory
  target_directory : d.tree.kindAt copy = some .directory
  clear : d.Clear origin copy

theorem Pairs.of_mirrors {source target : String} (hpairs : d.Pairs source origin target copy)
    (hmirrors : d.Mirrors origin copy names d') : d'.Pairs source origin target copy where
  proper := hmirrors.grows.proper hpairs.proper
  current := by
    rw [hmirrors.grows.current]
    exact hmirrors.grows.tree _ _ hpairs.current
  source_nul := hpairs.source_nul
  target_nul := hpairs.target_nul
  source_enters :=
    hpairs.source_enters.of_keeps hmirrors.grows.tree.keepsWays hmirrors.grows.current
  target_enters :=
    hpairs.target_enters.of_keeps hmirrors.grows.tree.keepsWays hmirrors.grows.current
  source_directory := hmirrors.grows.tree _ _ hpairs.source_directory
  target_directory := hmirrors.grows.tree _ _ hpairs.target_directory
  clear := hpairs.clear.of_mirrors hmirrors

end Disk

/-! ## Copies of entries -/

section

variable {source target name : String} {origin copy : Location} {names : List String}
  {d t d' : Disk} {levels : Nat} {existOk : Bool} {result : Except Failure Unit}

/-- A directory that is made for a directory of the source is its counterpart. -/
theorem Disk.Pairs.mirrors_of_makesWay (hpairs : d.Pairs source origin target copy)
    (hname : d.tree.kindAt (origin ++ [name]) = some .directory) (hgrows : d.Grows t)
    (hway : d.MakesWay (copy ++ [name]) t) : d.Mirrors origin copy [name] t := by
  refine ⟨hgrows, fun location kind _ hnone hkind => ?_⟩
  have hmade : location <+: copy ++ [name] := by
    by_contra hother
    rw [Node.kindAt, hway.apart hother, ← Node.kindAt, hnone] at hkind
    cases hkind
  rcases List.prefix_concat_iff.mp hmade with rfl | ⟨rest, hrest⟩
  · have hnew : kind = .directory := by
      rcases hway.kindAt (copy ++ [name]) with hsame | ⟨-, hnew⟩
      · rw [hsame, hnone] at hkind
        cases hkind
      · rw [hnew] at hkind
        exact (Option.some.inj hkind).symm
    rw [hnew]
    refine ⟨name, List.mem_singleton_self name, [], rfl, ?_, hgrows.tree _ _ hname⟩
    rintro rfl
    rw [hname] at hnone
    cases hnone
  · have hthere := hpairs.target_directory
    rw [← hrest] at hthere
    rw [ kindAt_directory_of_prefix hthere] at hnone
    cases hnone

theorem Disk.Pairs.mirrors_of_link {linked : String} (hpairs : d.Pairs source origin target copy)
    (haccepted : IsAccepted name)
    (hname : d.tree.kindAt (origin ++ [name]) = some (.link linked))
    (hrun : (DiskM.copyEntry levels existOk source target name (.link linked)).run d =
      (result, d')) : d.Mirrors origin copy [name] d' := by
  have hframe := isFrame_mirrors origin copy [name]
  rcases run_bind_of_unchanged (respects_ask isFrame_eq _ _) hrun with
    ⟨rfl, -⟩ | ⟨read, hread, hrun⟩
  · exact hframe.refl _
  rw [run_change₂] at hrun
  split at hrun
  · cases hrun
    exact hframe.refl _
  next hnul =>
  cases hmake : d.makeLink read (Path.join target name) with
  | error code =>
      rw [hmake] at hrun
      cases hrun
      exact hframe.refl _
  | ok made =>
      rw [hmake] at hrun
      cases hrun
      obtain ⟨node, hnode, hkind⟩ := Option.map_eq_some_iff.mp hname
      have hleaf : node = .link linked := by
        cases node with
        | link other => rw [Node.kind, Kind.link.injEq] at hkind; rw [hkind]
        | _ => cases hkind
      subst hleaf
      obtain ⟨place, hstatus⟩ := Disk.readLink_inv (DiskM.ask_eq_ok hread)
      have hnames := hpairs.source_enters.names hpairs.source_nul haccepted
        (Disk.checkPath_of_status hstatus)
      rw [hnames.status hnode (by simp [Node.kind]) (by simp)] at hstatus
      obtain ⟨-, hlinked⟩ := Prod.mk.inj (Except.ok.inj hstatus)
      obtain rfl := Node.link.inj hlinked
      rw [Bool.or_eq_true, not_or, Bool.not_eq_true, Bool.not_eq_true] at hnul
      have hgrows := Disk.grows_of_makeLink hnul.1 hnul.2 hmake
      obtain ⟨parent, last, htip, -, -, hfree, rfl⟩ := Disk.makeLink_inv hmake
      obtain ⟨-, other, name', hplace, -, -, -, htip'⟩ :=
        hpairs.target_enters.names hpairs.target_nul haccepted (Disk.tip_eq_ok_iff.mp htip).1
      rw [htip] at htip'
      cases htip'
      refine ⟨hgrows, fun location kind _ hnone hkind => ?_⟩
      rw [Node.kindAt_put _ _ _ rfl hfree] at hkind
      split_ifs at hkind with hnew
      · cases hkind
        refine ⟨name, List.mem_singleton_self name, [], by rw [hnew.1, hplace], ?_,
          hgrows.tree _ _ hname⟩
        rintro rfl
        rw [← hplace, hname] at hfree
        cases hfree
      · rw [hnone] at hkind
        cases hkind

/-- Behind a directory no name of a leaf leads into a directory. -/
theorem Disk.Enters.isDirectory_join_eq_false {kind : Kind} (henters : d.Enters target copy)
    (hname : Path.IsName name.toList) (hkind : d.tree.kindAt (copy ++ [name]) = some kind)
    (hplain : ¬kind.IsWay) : d.isDirectory (Path.join target name) = false := by
  rw [Bool.eq_false_iff]
  intro hdirectory
  obtain ⟨found, hentered⟩ := DiskM.exists_enter_of_isDirectory hdirectory
  obtain ⟨left, henter⟩ := henters.way
  rw [startPlace_of_front henters.ne_empty (prefix_join hname target), pathNames_join hname,
    enter_append, henter] at hentered
  simp only [Except.bind] at hentered
  rw [enter_singleton, Place.kindOf_eq, if_pos rfl, hkind] at hentered
  split_ifs at hentered with hdot hdotdot
  · rw [hdot] at hname
    exact hname.ne_dot rfl
  · rw [hdotdot] at hname
    exact hname.ne_dotdot rfl
  · cases kind with
    | directory => exact hplain trivial
    | link linked => exact hplain trivial
    | _ => cases hentered

/-- What stands at the place of an entry, a directory or nothing, or something in the way. -/
theorem Disk.Pairs.aims_or_noRoom (hpairs : d.Pairs source origin target copy)
    (haccepted : IsAccepted name)
    (hname : d.tree.kindAt (origin ++ [name]) = some .directory) :
    d.Aims (Path.join target name) (copy ++ [name]) ∨
      (d.NoRoom (Path.join target name) ∧ d.isDirectory (Path.join target name) = false) := by
  cases hthere : d.tree.kindAt (copy ++ [name]) with
  | none =>
      exact Or.inl (hpairs.target_enters.aims_join hpairs.target_directory haccepted.toIsName
        (Or.inl hthere))
  | some kind =>
      by_cases hway : kind.IsWay
      · cases kind with
        | directory =>
            exact Or.inl (hpairs.target_enters.aims_join hpairs.target_directory
              haccepted.toIsName (Or.inr hthere))
        | link linked => exact absurd hname (hpairs.clear [name] linked hthere).1
        | _ => exact hway.elim
      · exact Or.inr ⟨hpairs.target_enters.noRoom_join haccepted.toIsName (by simp [hthere]),
          hpairs.target_enters.isDirectory_join_eq_false haccepted.toIsName hthere hway⟩

/-- Once the directory of an entry is made, the entry and its counterpart are a pair again. -/
theorem Disk.Pairs.below (hpairs : d.Pairs source origin target copy)
    (haccepted : IsAccepted name)
    (hname : d.tree.kindAt (origin ++ [name]) = some .directory)
    (haims : d.Aims (Path.join target name) (copy ++ [name]))
    (hrun : (DiskM.makeDirectories existOk (Path.join target name)).run d = (result, t)) :
    d.MakesWay (copy ++ [name]) t ∧ d.Mirrors origin copy [name] t ∧
      (result = .ok () → t.Pairs (Path.join source name) (origin ++ [name])
        (Path.join target name) (copy ++ [name])) := by
  have htarget := hasNul_join hpairs.target_nul haccepted.hasNul
  have hends : EndsWith d.GrownFrom (fun _ => True) IsFault
      (DiskM.makeDirectories existOk (Path.join target name)) :=
    endsWith_makeDirectories existOk htarget
  have hgrown := hends.state (.self hpairs.proper) hrun
  obtain ⟨hway, henters, -, -⟩ :=
    wayMade_of_makeDirectories hpairs.proper hpairs.current htarget haims hrun
  have hmirrors := hpairs.mirrors_of_makesWay hname hgrown.grows hway
  have hpairs' := hpairs.of_mirrors hmirrors
  have horigin := hgrown.grows.tree _ _ hname
  refine ⟨hway, hmirrors, fun hresult => ?_⟩
  have hto := henters (Or.inl hresult)
  exact
    { hpairs' with
      source_nul := hasNul_join hpairs.source_nul haccepted.hasNul
      target_nul := htarget
      source_enters := hpairs'.source_enters.join haccepted horigin
      target_enters := hto
      source_directory := horigin
      target_directory := by
        obtain ⟨left, hentered⟩ := hto.way
        exact kindAt_of_enter (kindAt_startPlace _ hpairs'.current) hentered
      clear := hpairs'.clear.below name }

/-- An entry of the source as it was listed. -/
structure Disk.Listed (origin : Location) (d : Disk) (entry : String × Node) : Prop where
  accepted : IsAccepted entry.1
  found : d.tree.kindAt (origin ++ [entry.1]) = some entry.2.kind

theorem Disk.Listed.of_grows {entry : String × Node} (hlisted : d.Listed origin entry)
    (hgrows : d.Grows d') : d'.Listed origin entry :=
  ⟨hlisted.accepted, hgrows.tree _ _ hlisted.found⟩

section

variable (htrees : ∀ {source target name : String} {origin copy : Location} {d d' : Disk}
    {result : Except Failure Unit}, d.Pairs source origin target copy → IsAccepted name →
      d.tree.kindAt (origin ++ [name]) = some .directory →
        (DiskM.copyTreeFrom levels existOk (Path.join source name) (Path.join target name)).run d =
          (result, d') → d.Mirrors origin copy [name] d')

include htrees

theorem mirrors_of_copyEntry {entry : String × Node} (hpairs : d.Pairs source origin target copy)
    (hlisted : d.Listed origin entry)
    (hrun : (DiskM.copyEntry levels existOk source target entry.1 entry.2).run d = (result, d')) :
    d.Mirrors origin copy [entry.1] d' := by
  obtain ⟨haccepted, hfound⟩ := hlisted
  obtain ⟨name, node⟩ := entry
  have hfile : (DiskM.copyFile (.ofEntry source name) (Path.join target name)).run d = (result, d') →
      d.Mirrors origin copy [name] d' := fun hrun =>
    ((addsNoWay_copyFile _ _).of_run hrun).mirrors origin copy [name]
  cases node with
  | link linked => exact hpairs.mirrors_of_link haccepted hfound hrun
  | dir es modified => exact htrees hpairs haccepted hfound hrun
  | file data executable modified => exact hfile hrun
  | pipe => exact hfile hrun
  | null => exact hfile hrun

theorem mirrors_of_copyEntries {entries : Node.Entries} {faults : List CopyFault}
    {result : Except Failure (List CopyFault)} (hpairs : d.Pairs source origin target copy)
    (hlisted : ∀ entry ∈ entries, d.Listed origin entry)
    (hrun : (DiskM.copyEntries levels existOk source target faults entries).run d =
      (result, d')) : d.Mirrors origin copy (entries.map Prod.fst) d' := by
  induction entries generalizing faults d with
  | nil =>
      cases hrun
      exact (isFrame_mirrors _ _ _).refl d'
  | cons entry entries ih =>
      rw [← Prod.eta entry, DiskM.run_copyEntries_cons] at hrun
      rcases hcopied : (DiskM.copyEntry levels existOk source target entry.1 entry.2).run d with
        ⟨first, t⟩
      have hfirst := mirrors_of_copyEntry htrees hpairs (hlisted entry List.mem_cons_self) hcopied
      have hhere : d.Mirrors origin copy ((entry :: entries).map Prod.fst) t :=
        hfirst.mono (by simp)
      have hrest : ∀ {faults}, (DiskM.copyEntries levels existOk source target faults entries).run
          t = (result, d') → d.Mirrors origin copy ((entry :: entries).map Prod.fst) d' :=
        fun hrun => (isFrame_mirrors _ _ _).trans hhere <|
          (ih (hpairs.of_mirrors hfirst) (fun other hother =>
            (hlisted other (List.mem_cons_of_mem _ hother)).of_grows hfirst.grows) hrun).mono
              (by simp)
      rw [hcopied] at hrun
      rcases first with failure | _
      · dsimp only at hrun
        split at hrun
        · exact hrest hrun
        · cases hrun
          exact hhere
      · exact hrest hrun

theorem mirrors_of_copyInto {entries : Node.Entries} (hpairs : d.Pairs source origin target copy)
    (hlisted : ∀ entry ∈ entries, d.Listed origin entry)
    (hrun : (DiskM.copyInto levels existOk source target entries).run d = (result, d')) :
    d.Mirrors origin copy (entries.map Prod.fst) d' := by
  unfold DiskM.copyInto at hrun
  rw [run_bind] at hrun
  rcases hcopies : (DiskM.copyEntries levels existOk source target [] entries).run d with
    ⟨failure | faults, t⟩
  · have hmirrors := mirrors_of_copyEntries htrees hpairs hlisted hcopies
    rw [hcopies] at hrun
    cases hrun
    exact hmirrors
  · have hmirrors := mirrors_of_copyEntries htrees hpairs hlisted hcopies
    rw [hcopies] at hrun
    have hpairs' := hpairs.of_mirrors hmirrors
    obtain ⟨status, hstatus, -⟩ := finishCopy_cases hpairs'.proper hpairs.source_nul
      hpairs.target_nul hrun
    exact (isFrame_mirrors _ _ _).trans hmirrors
      (((addsNoWay_copyStatus source target).of_run hstatus).mirrors _ _ _)

end

end

/-- The entries of a listed directory are there under their names. -/
theorem Disk.listed_of_get? {d : Disk} {origin : Location} {node : Node}
    (hproper : d.tree.Proper) (hnode : d.tree.get? origin = some node) :
    ∀ entry ∈ node.entries, d.Listed origin entry := by
  intro entry hentry
  have hfound := hproper.get?_of_mem hnode hentry
  have hkind : d.tree.kindAt (origin ++ [entry.1]) = some entry.2.kind := by
    rw [Node.kindAt, hfound]
    rfl
  exact ⟨hproper.accepted _ _ hkind entry.1 (by simp), hkind⟩

/-- The copy of an entry that is a directory adds nothing but counterparts. -/
theorem mirrors_of_copyTreeFrom {levels : Nat} {existOk : Bool} {source target name : String}
    {origin copy : Location} {d d' : Disk} {result : Except Failure Unit}
    (hpairs : d.Pairs source origin target copy) (haccepted : IsAccepted name)
    (hname : d.tree.kindAt (origin ++ [name]) = some .directory)
    (hrun : (DiskM.copyTreeFrom levels existOk (Path.join source name)
      (Path.join target name)).run d = (result, d')) : d.Mirrors origin copy [name] d' := by
  induction levels generalizing source target name origin copy d d' result with
  | zero =>
      rw [DiskM.copyTreeFrom_zero] at hrun
      cases hrun
      exact (isFrame_mirrors _ _ _).refl _
  | succ levels ih =>
      have hframe := isFrame_mirrors origin copy [name]
      rcases hpairs.aims_or_noRoom haccepted hname with haims | ⟨hroom, hfree⟩
      · rw [DiskM.copyTreeFrom_succ] at hrun
        rcases run_bind_of_unchanged (respects_ask isFrame_eq _ _) hrun with
          ⟨rfl, -⟩ | ⟨⟨place, node⟩, hstatus, hrun⟩
        · exact hframe.refl _
        have henters := hpairs.source_enters.join haccepted hname
        obtain ⟨rfl, -⟩ := henters.place_eq (DiskM.ask_eq_ok hstatus)
        have hnode := Disk.get?_of_status hpairs.current (DiskM.ask_eq_ok hstatus) rfl
        dsimp only at hrun hnode
        split at hrun
        · cases hrun
          exact hframe.refl _
        rw [run_bind] at hrun
        rcases hmade : (DiskM.makeDirectories existOk (Path.join target name)).run d with
          ⟨first, t⟩
        obtain ⟨-, hmirrors, hbelow⟩ := hpairs.below haccepted hname haims hmade
        rw [hmade] at hrun
        rcases first with failure | _
        · cases hrun
          exact hmirrors
        · have hlisted : ∀ entry ∈ node.entries, t.Listed (origin ++ [name]) entry :=
            fun entry hentry =>
              (Disk.listed_of_get? hpairs.proper hnode entry hentry).of_grows hmirrors.grows
          exact hframe.trans hmirrors
            (mirrors_of_copyInto ih (hbelow rfl) hlisted hrun).of_below
      · obtain ⟨rfl, -⟩ := copyTreeFrom_of_noRoom hpairs.proper
          (hasNul_join hpairs.source_nul haccepted.hasNul)
          (hasNul_join hpairs.target_nul haccepted.hasNul) hroom hfree hrun
        exact hframe.refl _

end BuildRunner
