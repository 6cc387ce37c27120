import BuildRunner.Proofs.Disk.Delivering
import BuildRunner.Proofs.Files.Copied

/-!
# Copies that arrive

Sources are copied one after the other, and each lands where the target says by then: a directory
that an earlier source has made receives the later ones.  After a call that succeeds every source is
found where it has landed, down to every directory and file of it.  Only a file that another source
is copied over, before in the source or later in the copy, has other bytes.
-/

namespace BuildRunner

namespace Disk

/-- A disk of directories and regular files. -/
structure Plain (d : Disk) : Prop where
  proper : d.tree.Proper
  ordinary : d.tree.Ordinary
  current : d.tree.kindAt d.cwd.base = some .directory

end Disk

theorem Place.lost_along {place : Place} (hplace : place.lost = []) (names : List String) :
    (place.along names).lost = [] := by
  induction names generalizing place with
  | nil => exact hplace
  | cons name rest ih =>
      refine ih ?_
      unfold Place.step
      split_ifs
      · exact hplace
      · simp [Place.up, hplace]
      · exact hplace

namespace Disk

variable {d d' : Disk} {path : String}

theorem goal_eq (hthere : (d.goal path).lost = []) : d.goal path = ⟨(d.goal path).base, []⟩ := by
  rw [← hthere]

/-- While the current directory stands, every path spells a location of the tree. -/
theorem lost_goal (hhere : d.cwd.lost = []) (path : String) : (d.goal path).lost = [] := by
  refine Place.lost_along ?_ (pathNames path)
  unfold startPlace
  split
  · rfl
  · exact hhere

namespace Plain

/-- What is there by a path is at the place that the path spells. -/
theorem status_of_pathExists (hplain : d.Plain) (hexists : d.pathExists path = true) :
    ∃ node, d.status true path = .ok (d.goal path, node) ∧
      d.kindOf true path = some node.kind := by
  unfold pathExists at hexists
  unfold kindOf
  obtain ⟨node, hnode⟩ := Option.isSome_iff_exists.mp hexists
  rw [hnode]
  unfold node? at hnode
  split at hnode
  · cases hnode
  · cases hstatus : d.status true path with
    | error code =>
        rw [hstatus] at hnode
        cases hnode
    | ok found =>
        rw [hstatus] at hnode
        cases hnode
        refine ⟨found.2, ?_, rfl⟩
        rw [← place_of_status hplain.ordinary.linkless hstatus]

/-- What is there by a path is a file or a directory. -/
theorem isFile_or_isDirectory (hplain : d.Plain) (hexists : d.pathExists path = true) :
    d.isFile path = true ∨ d.isDirectory path = true := by
  obtain ⟨node, hstatus, hkind⟩ := hplain.status_of_pathExists hexists
  rw [isFile_iff, isDirectory_iff, hkind]
  rcases status_eq_ok_iff.mp hstatus with ⟨hlocate, rfl⟩ | ⟨parent, name, hlocate, -⟩
  · refine Or.inr (congrArg some ?_)
    rw [kind_nodeAt, kindAt_of_locate hplain.current hlocate]
    exact ite_self _
  · have hnode := (get?_of_lookup (lookup_of_locate hlocate)).2
    rcases hplain.ordinary _ node.kind (by rw [Node.kindAt, hnode]; rfl) with hdirectory | hfile
    · exact Or.inr (by rw [hdirectory])
    · exact Or.inl (by rw [hfile])

/-- A source lands at the same path as long as the target stays a directory. -/
theorem landing_of_grows {source target : String} (hplain : d.Plain) (hgrows : d.Grows d')
    (hdirectory : d.isDirectory target = true) (hexists : d.pathExists source = true) :
    d'.landing source target = d.landing source target := by
  have hdirectory' := hgrows.isDirectory hplain.current hdirectory
  unfold landing
  rw [hdirectory, hdirectory']
  rcases hplain.isFile_or_isDirectory hexists with hfile | hsource
  · rw [hfile, hgrows.isFile hfile]
    rfl
  · have hsource' := hgrows.isDirectory hplain.current hsource
    have hplainFile : ∀ {d : Disk}, d.isDirectory source = true → d.isFile source = false := by
      intro d hthere
      rw [Bool.eq_false_iff, Ne, isFile_iff, (isDirectory_iff d source).mp hthere]
      simp
    rw [hplainFile hsource, hplainFile hsource', hsource, hsource']

end Plain

end Disk

/-! ## One source -/

/-- A source with the disk when its turn comes. -/
structure Delivery where
  disk : Disk
  source : String

namespace Delivery

/-- Sources in turn, each with the disk that the copies before it leave. -/
def all (target : String) : Disk → List String → List Delivery
  | _, [] => []
  | d, source :: rest => ⟨d, source⟩ :: all target (stateAfter (DiskM.copyOne source target) d) rest

variable (delivery : Delivery) (target : String)

/-- The path that the source is copied to. -/
def landing : String := delivery.disk.landing delivery.source target

/-- The location that the source spells. -/
def origin : Location := (delivery.disk.goal delivery.source).base

/-- The location that the landing spells. -/
def place : Location := (delivery.disk.goal (delivery.landing target)).base

/-- The disk with the directories that are made first: those above a file, and all up to the copy of
a directory. -/
def ground : Disk :=
  stateAfter
    (DiskM.makeDirectories true
      (if delivery.disk.isFile delivery.source then Path.parent (delivery.landing target)
      else delivery.landing target))
    delivery.disk

/-- The source and the place where it lands are in the tree, neither contains or lies below the
other, and none of the files of the source meets a directory there. -/
structure HasRoom : Prop where
  held : (delivery.disk.goal delivery.source).lost = []
  lands : (delivery.disk.goal (delivery.landing target)).lost = []
  apart : Location.Apart (delivery.place target) delivery.origin ∨
    delivery.place target = delivery.origin
  free : ∀ rest, delivery.disk.tree.kindAt (delivery.origin ++ rest) = some .file →
    (delivery.ground target).tree.kindAt (delivery.place target ++ rest) ≠ some .directory

/-- A file has room where no directory stands. -/
theorem hasRoom_of_file {delivery : Delivery} {target : String}
    (hhere : delivery.disk.cwd.lost = [])
    (hfile : delivery.disk.tree.kindAt delivery.origin = some .file)
    (hapart : Location.Apart (delivery.place target) delivery.origin)
    (hfree : (delivery.ground target).tree.kindAt (delivery.place target) ≠ some .directory) :
    delivery.HasRoom target where
  held := Disk.lost_goal hhere delivery.source
  lands := Disk.lost_goal hhere (delivery.landing target)
  apart := Or.inl hapart
  free rest hrest := by
    cases rest with
    | nil => rwa [List.append_nil]
    | cons name rest =>
        rw [kindAt_directory_of_nonempty hrest] at hfile
        cases hfile

/-- A file of the source is copied to the location. -/
def Overwrites (location : Location) : Prop :=
  ∃ rest, location = delivery.place target ++ rest ∧
    delivery.disk.tree.kindAt (delivery.origin ++ rest) = some .file

end Delivery

section

variable {d d' : Disk} {source target : String}

theorem DiskM.reporting_eq_success {prefixed : String → DiskM String} {action : DiskM Report}
    (hrun : (reporting prefixed action).run d = (.ok .success, d')) :
    action.run d = (.ok .success, d') := by
  unfold reporting at hrun
  rw [run_tryCatch] at hrun
  rcases haction : action.run d with ⟨failure | report, t⟩
  · rw [haction] at hrun
    dsimp only at hrun
    split at hrun
    · next reason _ =>
        rw [run_bind] at hrun
        rcases hprefixed : (prefixed reason).run t with ⟨other | text, u⟩
        · rw [hprefixed] at hrun
          cases hrun
        · rw [hprefixed] at hrun
          cases hrun
    · cases hrun
  · rw [haction] at hrun
    exact hrun

/-- A copy to a path that succeeds delivers the source there, if there is room. -/
theorem delivered_of_copyTo {origin place : Location} (hplain : d.Plain)
    (hfrom : d.goal source = ⟨origin, []⟩) (hgoal : d.goal target = ⟨place, []⟩)
    (hplace : Location.Apart place origin ∨ place = origin)
    (hfree : ∀ rest, d.tree.kindAt (origin ++ rest) = some .file →
      (stateAfter (DiskM.makeDirectories true
          (if d.isFile source then Path.parent target else target)) d).tree.kindAt (place ++ rest) ≠
        some .directory)
    (hrun : (DiskM.copyTo source target).run d = (.ok .success, d')) :
    d'.LeadsTo target place ∧ d.Delivers origin place d' := by
  have hlinkless := hplain.ordinary.linkless
  unfold DiskM.copyTo at hrun
  rw [run_bind, run_get] at hrun
  dsimp only at hrun
  split at hrun
  · next hfile =>
      rw [if_pos hfile] at hfree
      have hcopied : ∀ {t}, d.Paved target t → t.tree.kindAt place ≠ some .directory →
          (do DiskM.copyFile (.ofPath source) target; return Report.success).run t =
            (.ok .success, d') → d'.LeadsTo target place ∧ d.Delivers origin place d' := by
        intro t hpaved hmeets hcopy
        rw [run_bind] at hcopy
        rcases hfirst : (DiskM.copyFile (.ofPath source) target).run t with ⟨failure | _, u⟩
        · rw [hfirst] at hcopy
          cases hcopy
        · rw [hfirst] at hcopy
          cases hcopy
          exact delivered_of_copyFile hplain.ordinary hplain.current hfile hfrom hgoal hplace hpaved
            hmeets hfirst
      obtain ⟨-, node, hnode, hkind⟩ :=
        Disk.names_of_isFile hlinkless hplain.current hfrom hfile
      have hhere := hfree [] (by rw [List.append_nil, Node.kindAt, hnode, ← hkind]; rfl)
      rw [List.append_nil] at hhere
      have hgrows : Respects Disk.Grows (DiskM.makeDirectories true (Path.parent target)) :=
        DiskM.respects_makeDirectories isFrame_diskGrows true fun _ _ _ _ hnul =>
          Disk.grows_of_makeDirectory hnul
      split at hrun
      · next hparent =>
          rw [run_bind] at hrun
          rcases hmade : (DiskM.makeDirectories true (Path.parent target)).run d with
            ⟨failure | _, t⟩
          · rw [hmade] at hrun
            cases hrun
          · rw [hmade] at hrun
            rw [stateAfter_of_run hmade] at hhere
            exact hcopied ((respects_makeDirectories_paves true
              (isFront_parent (by simpa using hparent))).of_run hmade hplain.proper hlinkless) hhere
              hrun
      · refine hcopied ((isFrame_paves target).refl d hplain.proper hlinkless) (fun hthere => ?_) hrun
        exact hhere ((hgrows d).tree _ _ hthere)
  · next hfile =>
      rw [if_neg hfile] at hfree
      rw [run_bind, run_get] at hrun
      dsimp only at hrun
      split at hrun
      · next hdirectory =>
          rw [run_bind] at hrun
          rcases hcopy : (DiskM.copyTree true source target).run d with ⟨failure | _, t⟩
          · rw [hcopy] at hrun
            cases hrun
          · rw [hcopy] at hrun
            cases hrun
            exact delivered_of_copyTreeFrom hplain.proper hplain.ordinary hplain.current hdirectory
              hfrom hgoal hplace hfree hcopy
      · cases hrun

/-- A source that is copied is delivered where it lands, if there is room. -/
theorem Delivery.delivered (delivery : Delivery) (hplain : delivery.disk.Plain)
    (hroom : delivery.HasRoom target)
    (hrun : (DiskM.copyOne delivery.source target).run delivery.disk = (.ok .success, d')) :
    d'.LeadsTo (delivery.landing target) (delivery.place target) ∧
      delivery.disk.Delivers delivery.origin (delivery.place target) d' := by
  rw [DiskM.run_copyOne] at hrun
  exact delivered_of_copyTo hplain (Disk.goal_eq hroom.held) (Disk.goal_eq hroom.lands) hroom.apart
    hroom.free (DiskM.reporting_eq_success hrun)

/-- On a disk of directories and regular files a copy leaves such a disk, and nothing is lost. -/
theorem plain_of_copyOne {result : Except Failure Report} (hplain : d.Plain)
    (hrun : (DiskM.copyOne source target).run d = (result, d')) : d.Grows d' ∧ d'.Plain := by
  have hreceived :=
    received_of_copyOne hplain.proper hplain.ordinary.linkless hplain.current hrun
  have hgrows := hreceived.grown.grows
  refine ⟨hgrows, hreceived.grown.proper,
    hreceived.added.ordinary hgrows.tree hplain.ordinary, ?_⟩
  rw [hgrows.current]
  exact hgrows.tree _ _ hplain.current

end

/-! ## All sources -/

section

variable {d t d' : Disk} {source target : String} {sources : List String}

/-- Where sources are copied without a refusal, the first one is and then the others. -/
theorem copyAll_cons_success
    (hrun : (DiskM.copyAll target (source :: sources)).run d = (.ok .success, d')) :
    ∃ t, (DiskM.copyOne source target).run d = (.ok .success, t) ∧
      (DiskM.copyAll target sources).run t = (.ok .success, d') ∧
        Delivery.all target d (source :: sources) =
          ⟨d, source⟩ :: Delivery.all target t sources := by
  unfold DiskM.copyAll at hrun
  rw [run_bind] at hrun
  rcases hfirst : (DiskM.copyOne source target).run d with ⟨failure | report, t⟩
  · rw [hfirst] at hrun
    cases hrun
  · rw [hfirst] at hrun
    cases report with
    | success => exact ⟨t, rfl, hrun, by rw [Delivery.all, stateAfter_of_run hfirst]⟩
    | refused message => cases hrun

/-- A file that no source is copied over is as it was. -/
theorem spared_of_copyAll (hplain : d.Plain)
    (hrooms : ∀ delivery ∈ Delivery.all target d sources, delivery.HasRoom target)
    (hrun : (DiskM.copyAll target sources).run d = (.ok .success, d')) :
    d.Grows d' ∧ ∀ location, d.tree.kindAt location = some .file →
      (∀ delivery ∈ Delivery.all target d sources, ¬delivery.Overwrites target location) →
        d'.tree.ownAt location = d.tree.ownAt location := by
  induction sources generalizing d with
  | nil =>
      cases hrun
      exact ⟨isFrame_diskGrows.refl _, fun _ _ _ => rfl⟩
  | cons source sources ih =>
      obtain ⟨t, hfirst, hrest, hall⟩ := copyAll_cons_success hrun
      rw [hall] at hrooms ⊢
      obtain ⟨hroom, hothers⟩ := List.forall_mem_cons.mp hrooms
      obtain ⟨hgrows, hplain'⟩ := plain_of_copyOne hplain hfirst
      obtain ⟨hgrows', hspared⟩ := ih hplain' hothers hrest
      refine ⟨isFrame_diskGrows.trans hgrows hgrows', fun location hfile hkept => ?_⟩
      obtain ⟨hnot, hothers⟩ := List.forall_mem_cons.mp hkept
      obtain ⟨-, hdelivers⟩ := Delivery.delivered ⟨d, source⟩ hplain hroom hfirst
      rw [hspared location (hgrows.tree _ _ hfile) hothers]
      exact hdelivers.spared location hfile fun rest hlocation hthere =>
        hnot ⟨rest, hlocation, hthere⟩

namespace Delivery

/-- What the source held on a disk from before is found where it has landed.  The bytes of a file
may be others if a source is copied over it before, or over its copy later. -/
structure Arrives (delivery : Delivery) (target : String) (front back : List Delivery)
    (d d' : Disk) : Prop where
  leads : d'.LeadsTo (delivery.landing target) (delivery.place target)
  existed : d.pathExists delivery.source = true → d.LeadsTo delivery.source delivery.origin ∧
    (d.isDirectory target = true → delivery.landing target = d.landing delivery.source target)
  kinds : ∀ rest kind, d.tree.kindAt (delivery.origin ++ rest) = some kind →
    d'.tree.kindAt (delivery.place target ++ rest) = some kind
  files : ∀ rest, d.tree.kindAt (delivery.origin ++ rest) = some .file →
    (∀ earlier ∈ front, ¬earlier.Overwrites target (delivery.origin ++ rest)) →
      (∀ later ∈ back, ¬later.Overwrites target (delivery.place target ++ rest)) →
        d'.tree.ownAt (delivery.place target ++ rest) = d.tree.ownAt (delivery.origin ++ rest)

variable {delivery : Delivery} {front back : List Delivery}

/-- The source of the first turn arrives. -/
theorem arrives_first (hplain : delivery.disk.Plain)
    (hheld : (delivery.disk.goal delivery.source).lost = [])
    (hleads : t.LeadsTo (delivery.landing target) (delivery.place target))
    (hdelivers : delivery.disk.Delivers delivery.origin (delivery.place target) t)
    (hgrows : t.Grows d')
    (hspared : ∀ location, t.tree.kindAt location = some .file →
      (∀ later ∈ back, ¬later.Overwrites target location) →
        d'.tree.ownAt location = t.tree.ownAt location) :
    delivery.Arrives target [] back delivery.disk d' := by
  have hkinds : ∀ rest kind, delivery.disk.tree.kindAt (delivery.origin ++ rest) = some kind →
      t.tree.kindAt (delivery.place target ++ rest) = some kind ∧
        t.tree.ownAt (delivery.place target ++ rest) =
          delivery.disk.tree.ownAt (delivery.origin ++ rest) := by
    intro rest kind hkind
    rw [Node.kindAt_eq_ownAt] at hkind ⊢
    obtain ⟨entry, hentry, hsame⟩ := Option.map_eq_some_iff.mp hkind
    rw [hdelivers.same rest entry hentry, hentry]
    exact ⟨congrArg some hsame, rfl⟩
  refine ⟨hleads.of_grows hgrows, fun hexists => ⟨?_, fun _ => rfl⟩, fun rest kind hkind => ?_,
    fun rest hfile _ hkept => ?_⟩
  · obtain ⟨node, hstatus, -⟩ := hplain.status_of_pathExists hexists
    exact ⟨node, hstatus.trans (by rw [Disk.goal_eq hheld]; rfl)⟩
  · exact hgrows.tree _ _ (hkinds rest kind hkind).1
  · obtain ⟨hthere, hsame⟩ := hkinds rest .file hfile
    rw [hspared _ hthere hkept, hsame]

/-- A source that arrives from the disk that an earlier one leaves arrives from the one before. -/
theorem Arrives.of_earlier {first : Delivery} (harrives : delivery.Arrives target front back t d')
    (hplain : first.disk.Plain) (hgrows : first.disk.Grows t)
    (hdelivers : first.disk.Delivers first.origin (first.place target) t) :
    delivery.Arrives target (first :: front) back first.disk d' := by
  refine ⟨harrives.leads, fun hexists => ?_,
    fun rest kind hkind => harrives.kinds rest kind (hgrows.tree _ _ hkind),
    fun rest hfile hfront hback => ?_⟩
  · obtain ⟨node, hstatus, -⟩ := hplain.status_of_pathExists hexists
    obtain ⟨⟨node', hthere⟩, hlanding⟩ := harrives.existed (hgrows.pathExists hexists)
    obtain ⟨held, hheld⟩ := hgrows.status hstatus
    rw [hheld] at hthere
    obtain ⟨hplace, -⟩ := Prod.mk.inj (Except.ok.inj hthere)
    rw [hplace] at hstatus
    exact ⟨⟨node, hstatus⟩, fun hdirectory =>
      (hlanding (hgrows.isDirectory hplain.current hdirectory)).trans
        (hplain.landing_of_grows hgrows hdirectory hexists)⟩
  · obtain ⟨hfirst, hfront⟩ := List.forall_mem_cons.mp hfront
    rw [harrives.files rest (hgrows.tree _ _ hfile) hfront hback]
    exact hdelivers.spared _ hfile fun way hlocation hthere => hfirst ⟨way, hlocation, hthere⟩

end Delivery

/-- Sources that are copied without a refusal all arrive. -/
theorem arrives_of_copyAll (hplain : d.Plain)
    (hrooms : ∀ delivery ∈ Delivery.all target d sources, delivery.HasRoom target)
    (hrun : (DiskM.copyAll target sources).run d = (.ok .success, d'))
    {front back : List Delivery} {delivery : Delivery}
    (hsplit : Delivery.all target d sources = front ++ delivery :: back) :
    delivery.Arrives target front back d d' := by
  induction sources generalizing d front with
  | nil => exact absurd hsplit (by simp [Delivery.all])
  | cons source sources ih =>
      obtain ⟨t, hfirst, hrest, hall⟩ := copyAll_cons_success hrun
      rw [hall] at hrooms hsplit
      obtain ⟨hroom, hothers⟩ := List.forall_mem_cons.mp hrooms
      obtain ⟨hgrows, hplain'⟩ := plain_of_copyOne hplain hfirst
      obtain ⟨hleads, hdelivers⟩ := Delivery.delivered ⟨d, source⟩ hplain hroom hfirst
      cases front with
      | nil =>
          obtain ⟨rfl, rfl⟩ := List.cons.inj hsplit
          obtain ⟨hgrows', hspared⟩ := spared_of_copyAll hplain' hothers hrest
          exact Delivery.arrives_first hplain hroom.held hleads hdelivers hgrows' hspared
      | cons first front =>
          obtain ⟨rfl, hothersplit⟩ := List.cons.inj hsplit
          exact (ih hplain' hothers hrest hothersplit).of_earlier hplain hgrows hdelivers

end

namespace Act

variable {κ : Type}

/-- After a copy that succeeds every source is found where it has landed, with every directory and
file that it held when the call began. -/
theorem cp_delivers (sources : List String) (target : String) (m : Machine κ)
    (hplain : m.disk.Plain) (hsuccess : resultOf (cp (sources ++ [target])) m = .ok .success) :
    ∃ expanded, m.disk.expanded sources = .ok expanded ∧
      ((∀ delivery ∈ Delivery.all target m.disk expanded, delivery.HasRoom target) →
        ∀ front delivery back,
          Delivery.all target m.disk expanded = front ++ delivery :: back →
            delivery.Arrives target front back m.disk
              (stateAfter (cp (sources ++ [target])) m).disk) := by
  have hrun := run_eq (cp (sources ++ [target])) m
  rw [hsuccess] at hrun
  rcases run_cp_cases hrun with ⟨-, hfailed⟩ | ⟨expanded, hexpanded, hcopied⟩
  · exact absurd rfl hfailed
  · exact ⟨expanded, hexpanded, fun hrooms front delivery back hsplit =>
      arrives_of_copyAll hplain hrooms hcopied hsplit⟩

/-- A machine with two files of one name and a directory. -/
def twoMachine : Machine Unit where
  disk :=
    { tree := ((((Node.empty.put [] "a" .empty).put ["a"] "x" (.file [49] false none)).put [] "b"
        .empty).put ["b"] "x" (.file [50] false none)).put [] "o" .empty
      cwd := ⟨[], []⟩ }
  environment := []

theorem plain_twoMachine : twoMachine.disk.Plain where
  proper := by
    refine Node.Proper.put ?_ (by decide) (by rintro _ ⟨⟩) rfl rfl
    refine Node.Proper.put ?_ (by decide) (by rintro _ ⟨⟩) rfl rfl
    refine Node.Proper.put ?_ (by decide) (by rintro _ ⟨⟩) rfl rfl
    refine Node.Proper.put ?_ (by decide) (by rintro _ ⟨⟩) rfl rfl
    exact Node.proper_empty.put (by decide) (by rintro _ ⟨⟩) rfl rfl
  ordinary := by
    refine Node.Ordinary.put ?_ rfl rfl (Or.inl rfl)
    refine Node.Ordinary.put ?_ rfl rfl (Or.inr rfl)
    refine Node.Ordinary.put ?_ rfl rfl (Or.inl rfl)
    refine Node.Ordinary.put ?_ rfl rfl (Or.inr rfl)
    exact Node.ordinary_empty.put rfl rfl (Or.inl rfl)
  current := rfl

/-- The delivery of the file that is copied first. -/
def firstFile : Delivery := ⟨twoMachine.disk, "a/x"⟩

/-- The delivery of the file that is copied last. -/
def secondFile : Delivery := ⟨stateAfter (DiskM.copyOne "a/x" "o") twoMachine.disk, "b/x"⟩

theorem origin_firstFile : firstFile.origin = ["a", "x"] := by decide +kernel

theorem origin_secondFile : secondFile.origin = ["b", "x"] := by decide +kernel

theorem place_firstFile : firstFile.place "o" = ["o", "x"] := by decide +kernel

theorem place_secondFile : secondFile.place "o" = ["o", "x"] := by decide +kernel

theorem hasRoom_firstFile : firstFile.HasRoom "o" :=
  Delivery.hasRoom_of_file (by decide +kernel) (by decide +kernel)
    ⟨by decide +kernel, by decide +kernel⟩ (by decide +kernel)

theorem hasRoom_secondFile : secondFile.HasRoom "o" :=
  Delivery.hasRoom_of_file (by decide +kernel) (by decide +kernel)
    ⟨by decide +kernel, by decide +kernel⟩ (by decide +kernel)

/-- Both files are copied into the directory: there is a file, and it is the one copied last. -/
theorem cp_delivers_twoMachine :
    resultOf (cp ["a/x", "b/x", "o"]) twoMachine = .ok .success ∧
      (stateAfter (cp ["a/x", "b/x", "o"]) twoMachine).disk.tree.kindAt ["o", "x"] = some .file ∧
        (stateAfter (cp ["a/x", "b/x", "o"]) twoMachine).disk.tree.ownAt ["o", "x"] =
          twoMachine.disk.tree.ownAt ["b", "x"] := by
  have hsuccess : resultOf (cp ["a/x", "b/x", "o"]) twoMachine = .ok .success := by decide +kernel
  have harrives := cp_delivers ["a/x", "b/x"] "o" twoMachine plain_twoMachine
  have hpaths : ["a/x", "b/x"] ++ ["o"] = ["a/x", "b/x", "o"] := rfl
  rw [hpaths] at harrives
  obtain ⟨expanded, hexpanded, harrives⟩ := harrives hsuccess
  refine ⟨hsuccess, ?_⟩
  -- nothing but the arrivals is used of the disk afterwards
  generalize (stateAfter (cp ["a/x", "b/x", "o"]) twoMachine).disk = d' at harrives ⊢
  have hsources : twoMachine.disk.expanded ["a/x", "b/x"] = .ok ["a/x", "b/x"] := rfl
  rw [hsources] at hexpanded
  obtain rfl := Except.ok.inj hexpanded
  have hall : Delivery.all "o" twoMachine.disk ["a/x", "b/x"] = [firstFile, secondFile] := rfl
  rw [hall, List.forall_mem_cons, List.forall_mem_singleton] at harrives
  have hrooms := And.intro hasRoom_firstFile hasRoom_secondFile
  have hfirst := harrives hrooms [] firstFile [secondFile] rfl
  have hsecond := harrives hrooms [firstFile] secondFile [] rfl
  constructor
  · have hkind := hfirst.kinds [] .file
    rw [place_firstFile, origin_firstFile, List.append_nil, List.append_nil] at hkind
    exact hkind rfl
  · have hown := hsecond.files []
    rw [place_secondFile, origin_secondFile, List.append_nil, List.append_nil] at hown
    refine hown rfl (fun earlier hearlier => ?_) nofun
    -- the first file is not copied over the second one
    rw [List.mem_singleton.mp hearlier]
    rintro ⟨rest, hrest, -⟩
    rw [place_firstFile] at hrest
    exact absurd (List.cons.inj hrest).1 (by decide)

/-- Nothing is left of the file that was copied first.  Where the target is missing, a directory that
is copied after another one is received by the copy of that one.  A file is received by a directory
that stands where it lands. -/
theorem overwritten_twoMachine :
    (twoMachine.disk.read "a/x" = .ok [49] ∧ twoMachine.disk.landing "a/x" "o" = "o/x" ∧
        resultOf (cp ["a/x", "b/x", "o"]) twoMachine = .ok .success ∧
          (stateAfter (cp ["a/x", "b/x", "o"]) twoMachine).disk.read "o/x" = .ok [50]) ∧
      (twoMachine.disk.read "b/x" = .ok [50] ∧ twoMachine.disk.landing "b" "n" = "n" ∧
        resultOf (cp ["a", "b", "n"]) twoMachine = .ok .success ∧
          (stateAfter (cp ["a", "b", "n"]) twoMachine).disk.read "n/x" = .ok [49] ∧
            (stateAfter (cp ["a", "b", "n"]) twoMachine).disk.read "n/b/x" = .ok [50]) ∧
        resultOf (cp ["b/x", "o"]) (stateAfter (cp ["a", "o/x"]) twoMachine) = .ok .success ∧
          (stateAfter (cp ["a", "o/x"]) twoMachine).disk.landing "b/x" "o" = "o/x" ∧
            (stateAfter (cp ["b/x", "o"])
              (stateAfter (cp ["a", "o/x"]) twoMachine)).disk.isDirectory "o/x" = true := by
  refine ⟨⟨?_, ?_, ?_, ?_⟩, ⟨?_, ?_, ?_, ?_, ?_⟩, ?_, ?_, ?_⟩
  all_goals decide +kernel

end Act

end BuildRunner
