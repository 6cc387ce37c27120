import BuildRunner.Proofs.Disk.Duplicating
import BuildRunner.Proofs.Disk.Moving
import BuildRunner.Proofs.Disk.Relocating
import BuildRunner.Proofs.Files.Removed

/-!
# Moves lose nothing

`mv` renames, and where that is refused it makes a link anew, or copies and then removes the source.
However it ends, every entry that was at or below the source is there afterwards or at the same place
below the landing.  A move that succeeds leaves nothing behind.  A directory can be told to be moved
into itself in ways that the check by the texts of the two paths does not see; then it is lost.
-/

namespace BuildRunner

variable {κ : Type}

/-- Where a source is moved to: into the directory at the target, unless the source leads to this
directory itself. -/
def Disk.moveLanding (d : Disk) (source target : String) : String :=
  if d.isDirectory target && !(d.sameEntry source target).toOption.getD false then
    Path.join target (Path.lastSegment source)
  else target

/-- What was at and below a location is still there or has come to another one, and with success it
has come there as a whole.  The null device counts for nothing. -/
structure Disk.Moved (old new : Location) (success : Prop) (d d' : Disk) : Prop where
  saved : ∀ rest entry, d.tree.ownAt (old ++ rest) = some entry → entry ≠ .null →
    d'.tree.ownAt (old ++ rest) = some entry ∨ d'.tree.ownAt (new ++ rest) = some entry
  arrived : success → new ≠ old → ∀ rest, d.tree.ownAt (old ++ rest) ≠ some .null →
    d'.tree.ownAt (new ++ rest) = d.tree.ownAt (old ++ rest)
  gone : success → new ≠ old → ∀ rest, d'.tree.ownAt (old ++ rest) = none

namespace Disk

variable {d d' t : Disk} {old new : Location} {success : Prop}

theorem moved_of_unchanged (d : Disk) (old new : Location) (hfailed : success → new = old) :
    d.Moved old new success d where
  saved _ _ hentry _ := Or.inl hentry
  arrived hsuccess hne := absurd (hfailed hsuccess) hne
  gone hsuccess hne := absurd (hfailed hsuccess) hne

theorem Relocates.moved (hrelocates : d.Relocates old new d') : d.Moved old new success d' where
  saved rest _ hentry _ := Or.inr ((hrelocates.arrived rest).trans hentry)
  arrived _ _ rest _ := hrelocates.arrived rest
  gone _ _ := hrelocates.gone

theorem Moved.mono {success' : Prop} (hmoved : d.Moved old new success d')
    (hsuccess : success' → success) : d.Moved old new success' d' where
  saved := hmoved.saved
  arrived h := hmoved.arrived (hsuccess h)
  gone h := hmoved.gone (hsuccess h)

theorem moved_of_rename {source target : String} {node : Node}
    (hcwd : d.tree.kindAt d.cwd.base = some .directory)
    (hsource : d.status false source = .ok (⟨old, []⟩, node))
    (hrename : d.rename source target = .ok d') : d.Moved old (d.aim target) success d' := by
  rcases relocates_of_rename hcwd hsource hrename with ⟨hsame, rfl⟩ | hrelocates
  · exact moved_of_unchanged d' _ _ fun _ => hsame.symm
  · exact hrelocates.moved

/-- What is duplicated to a place where nothing was can be removed where it comes from. -/
theorem Duplicates.moved (hduplicates : d.Duplicates old new t) (hapart : Location.Apart new old)
    (hvacant : d.tree.kindAt new = none)
    (hspared : ∀ location, ¬old <+: location → d'.tree.ownAt location = t.tree.ownAt location)
    (hgone : success → ∀ rest, d'.tree.ownAt (old ++ rest) = none) :
    d.Moved old new success d' := by
  have hkept : ∀ rest, d'.tree.ownAt (new ++ rest) = t.tree.ownAt (new ++ rest) := by
    intro rest
    have hbelow := (hapart.append rest []).not_below
    rw [List.append_nil] at hbelow
    exact hspared _ hbelow
  refine ⟨fun rest entry hentry hnull => Or.inr ?_, fun _ _ rest hnull => ?_, fun h _ => hgone h⟩
  · rw [hkept]
    exact (hduplicates rest).same entry hentry hnull
  · rw [hkept]
    cases hentry : d.tree.ownAt (old ++ rest) with
    | some entry =>
        refine (hduplicates rest).same entry hentry ?_
        rintro rfl
        exact hnull hentry
    | none =>
        rw [(hduplicates rest).spared hentry]
        apply Node.ownAt_eq_none_of_kindAt
        exact Node.kindAt_eq_none_of_front (List.prefix_append _ _) hvacant

end Disk

/-! ## Moving by copying -/

section

variable {d d' : Disk} {source target landing : String} {origin : Location} {node : Node}
  {result : Except Failure Unit}

/-- A source that is no directory is a leaf at the tip of its path. -/
theorem Disk.exists_leaf_of_status (hcwd : d.tree.kindAt d.cwd.base = some .directory)
    (hsource : d.status false source = .ok (⟨origin, []⟩, node)) (hleaf : node.kind ≠ .directory) :
    ∃ parent name, d.locate false source = .ok (.leaf parent name node) := by
  have hnode := Disk.get?_of_status hcwd hsource rfl
  rcases Disk.status_eq_ok_iff.mp hsource with ⟨hlocate, -⟩ | ⟨parent, name, hlocate, -⟩
  · have hkind := Disk.kindAt_of_locate hcwd hlocate
    rw [Node.kindAt, hnode] at hkind
    exact absurd (Option.some.inj hkind) hleaf
  · exact ⟨parent, name, hlocate⟩

section

variable (hcwd : d.tree.kindAt d.cwd.base = some .directory)
  (hsource : d.status false source = .ok (⟨origin, []⟩, node))
  (hrename : ∀ t, d.rename source landing ≠ .ok t)

include hcwd hsource hrename

/-- A link that cannot be renamed cannot be made anew. -/
theorem unchanged_of_moveLink (hleaf : node.kind ≠ .directory)
    (hrun : (DiskM.moveLink source landing).run d = (result, d')) :
    d' = d ∧ ∃ failure, result = .error failure := by
  obtain ⟨parent, name, hlocate⟩ := Disk.exists_leaf_of_status hcwd hsource hleaf
  rcases run_bind_of_unchanged (respects_ask isFrame_eq _ _) hrun with
    hfailed | ⟨linked, -, hrun⟩
  · exact hfailed
  rw [run_bind, run_change₂] at hrun
  cases hnul : Disk.hasNul linked || Disk.hasNul landing with
  | true =>
      rw [hnul, if_pos rfl] at hrun
      cases hrun
      exact ⟨rfl, _, rfl⟩
  | false =>
      rw [hnul, if_neg (by decide)] at hrun
      cases hmake : d.makeLink linked landing with
      | error code =>
          rw [hmake] at hrun
          cases hrun
          exact ⟨rfl, _, rfl⟩
      | ok made =>
          obtain ⟨t, ht⟩ := Disk.exists_rename_of_makeLink hcwd hlocate hmake
          exact absurd ht (hrename t)

/-- A file that cannot be renamed cannot be copied to the same place either. -/
theorem unchanged_of_moveFile (hleaf : node.kind ≠ .directory)
    (hfree : d.isDirectory landing = false)
    (hrun : (DiskM.moveFile source landing).run d = (result, d')) :
    d' = d ∧ ∃ failure, result = .error failure := by
  obtain ⟨parent, name, hlocate⟩ := Disk.exists_leaf_of_status hcwd hsource hleaf
  unfold DiskM.moveFile at hrun
  rw [run_bind] at hrun
  rcases hcopy : (DiskM.copyFile (.ofPath source) landing).run d with ⟨copied, t⟩
  rcases DiskM.copyFile_cases hfree hcopy with
    ⟨rfl, failure, rfl⟩ | ⟨data, u, -, -, hstore, -⟩
  · rw [hcopy] at hrun
    cases hrun
    exact ⟨rfl, _, rfl⟩
  · obtain ⟨u, hu⟩ := Disk.exists_rename_of_store hcwd hlocate hstore
    exact absurd hu (hrename u)

end

/-- A directory is copied to where nothing is, and then removed. -/
theorem moved_of_copyTree {copy : Location} (hready : d.Ready source origin landing copy)
    (haims : d.Aims landing copy) (hvacant : d.tree.kindAt copy = none)
    (hrun : (DiskM.copyTree false source landing >>= fun _ => DiskM.removeTree source).run d =
      (result, d')) : d.Moved origin copy (result = .ok ()) d' := by
  rw [run_bind] at hrun
  rcases hcopy : (DiskM.copyTree false source landing).run d with ⟨copied, t⟩
  obtain ⟨hwithin, hok⟩ :=
    copied_of_copyTreeFrom hready haims (Disk.Fits.of_vacant hready.apart hvacant) hcopy
  rw [hcopy] at hrun
  cases copied with
  | error failure =>
      cases hrun
      refine ⟨fun rest entry hentry _ => Or.inl ?_, nofun, nofun⟩
      have hspared := hready.apart.append [] rest
      rw [List.append_nil] at hspared
      rw [hwithin.ownAt_apart hspared, hentry]
  | ok _ =>
      have hgrown := (endsWith_copyTreeFrom DiskM.nestingLimit false hready.source_nul
        hready.target_nul).state (Disk.GrownFrom.self hready.proper) hcopy
      have henters := hready.enters.of_keeps hgrown.grows.tree.keepsWays hgrown.grows.current
      obtain ⟨hspared, hgone⟩ := removed_of_removeTree henters hready.source_nul hrun
      exact (hok rfl).2.moved hready.apart hvacant hspared hgone

theorem moved_of_moveDirectory (hproper : d.tree.Proper)
    (hcwd : d.tree.kindAt d.cwd.base = some .directory) (hnul : Disk.hasNul source = false)
    (hlanding : Disk.hasNul landing = false)
    (hsource : d.status false source = .ok (⟨origin, []⟩, node)) (hdir : node.isDir = true)
    (hfree : d.isDirectory landing = false) (hup : ¬d.GoesUp landing)
    (hinside : origin <+: d.aim landing → origin ≠ d.aim landing →
      d.liesWithin source target ≠ .ok false)
    (hrun : (DiskM.moveDirectory source target landing).run d = (result, d')) :
    d.Moved origin (d.aim landing) (result = .ok ()) d' := by
  have hunchanged : ∀ {failure : Failure}, result = .error failure → d' = d →
      d.Moved origin (d.aim landing) (result = .ok ()) d' := by
    rintro failure rfl rfl
    exact Disk.moved_of_unchanged d' _ _ nofun
  unfold DiskM.moveDirectory at hrun
  rw [run_bind, run_liesWithin] at hrun
  rcases hwithin : d.liesWithin source target with code | within
  · rw [hwithin] at hrun
    cases hrun
    exact hunchanged rfl rfl
  rw [hwithin] at hrun
  cases within with
  | true =>
      cases hrun
      exact hunchanged rfl rfl
  | false =>
      change (DiskM.copyTree false source landing >>= fun _ => DiskM.removeTree source).run d =
        (result, d') at hrun
      have hlink : ∀ linked, node ≠ .link linked := by
        rintro linked rfl
        cases hdir
      have hplace := Disk.locate_of_status (Disk.status_follow hsource hlink) hdir
      have horigin := Disk.kindAt_of_locate hcwd hplace
      rcases Disk.aims_or_noRoom hcwd hup with ⟨haims, hvacant⟩ | hroom
      · have hne : origin ≠ d.aim landing := by
          intro hsame
          rw [← hsame, horigin] at hvacant
          cases hvacant
        have hapart : Location.Apart (d.aim landing) origin := by
          refine ⟨fun habove => ?_, fun hbelow => hinside hbelow hne hwithin⟩
          rw [Node.kindAt_eq_none_of_front habove hvacant] at horigin
          cases horigin
        exact moved_of_copyTree ⟨hproper, hcwd, hnul, hlanding, Disk.enters_of_locate hplace, horigin,
          hapart⟩ haims hvacant hrun
      · rw [run_bind] at hrun
        rcases hcopy : (DiskM.copyTree false source landing).run d with ⟨copied, t⟩
        obtain ⟨rfl, failure, rfl⟩ :=
          copyTreeFrom_of_noRoom hproper hnul hlanding hroom hfree hcopy
        rw [hcopy] at hrun
        cases hrun
        exact hunchanged rfl rfl

/-! ## Moving -/

theorem moved_of_moveTo (hproper : d.tree.Proper)
    (hcwd : d.tree.kindAt d.cwd.base = some .directory) (hnul : Disk.hasNul source = false)
    (hlanding : Disk.hasNul landing = false)
    (hsource : d.status false source = .ok (⟨origin, []⟩, node))
    (hfree : d.isDirectory landing = false) (hup : ¬d.GoesUp landing)
    (hinside : origin <+: d.aim landing → origin ≠ d.aim landing →
      d.liesWithin source target ≠ .ok false)
    (hrun : (DiskM.moveTo source target landing).run d = (result, d')) :
    d.Moved origin (d.aim landing) (result = .ok ()) d' := by
  rw [DiskM.run_moveTo hnul hlanding] at hrun
  rcases hrename : d.rename source landing with code | renamed
  · rw [hrename] at hrun
    dsimp only at hrun
    have hrefused : ∀ t, d.rename source landing ≠ .ok t := fun t => by simp [hrename]
    have hunchanged : (d' = d ∧ ∃ failure, result = .error failure) →
        d.Moved origin (d.aim landing) (result = .ok ()) d' := by
      rintro ⟨rfl, failure, rfl⟩
      exact Disk.moved_of_unchanged d' _ _ fun hok => by cases hok
    have hlink : d.isLink source = node.isLink := by
      rw [Disk.isLink, Disk.node?, hnul, hsource]
      rfl
    have hfollow : (∀ linked, node ≠ .link linked) → d.isDirectory source = node.isDir := by
      intro hother
      rw [Disk.isDirectory, Disk.node?, hnul, Disk.status_follow hsource hother]
      rfl
    rw [DiskM.run_moveByCopy, hlink] at hrun
    cases node with
    | link linked =>
        have hleaf : (Node.link linked).kind ≠ .directory := fun hkind => by cases hkind
        exact hunchanged (unchanged_of_moveLink hcwd hsource hrefused hleaf hrun)
    | dir es modified =>
        rw [hfollow fun linked hlink => by cases hlink] at hrun
        exact moved_of_moveDirectory hproper hcwd hnul hlanding hsource rfl hfree hup hinside hrun
    | _ =>
        rw [hfollow fun linked hlink => by cases hlink] at hrun
        refine hunchanged (unchanged_of_moveFile hcwd hsource hrefused ?_ hfree hrun)
        exact fun hkind => by cases hkind
  · rw [hrename] at hrun
    cases hrun
    exact Disk.moved_of_rename hcwd hsource hrename

/-- A move keeps everything that was at or below the source, in one of the two places. -/
theorem moved_of_move (hproper : d.tree.Proper)
    (hcwd : d.tree.kindAt d.cwd.base = some .directory) (hnul : Disk.hasNul source = false)
    (hsource : d.status false source = .ok (⟨origin, []⟩, node))
    (hup : ¬d.GoesUp (d.moveLanding source target))
    (hinside : origin <+: d.aim (d.moveLanding source target) →
      origin ≠ d.aim (d.moveLanding source target) → d.liesWithin source target ≠ .ok false)
    (hrun : (DiskM.move source target).run d = (result, d')) :
    d.Moved origin (d.aim (d.moveLanding source target)) (result = .ok ()) d' := by
  cases htarget : Disk.hasNul target with
  | true =>
      have hdirectory : d.isDirectory target = false := by
        rw [Bool.eq_false_iff]
        intro hdirectory
        rw [Disk.hasNul_of_isDirectory hdirectory] at htarget
        cases htarget
      have hrefused : (DiskM.move source target).run d = (.error .nullByte, d) := by
        unfold DiskM.move DiskM.moveTo
        rw [run_bind, run_get]
        dsimp only
        rw [hdirectory, if_neg (by decide), run_tryCatch, run_change₂, htarget, Bool.or_true,
          if_pos rfl]
        rfl
      rw [hrefused] at hrun
      cases hrun
      exact Disk.moved_of_unchanged d _ _ nofun
  | false =>
      rw [DiskM.run_move hnul htarget] at hrun
      cases hdirectory : d.isDirectory target with
      | false =>
          have hlands : d.moveLanding source target = target := by
            rw [Disk.moveLanding, hdirectory]
            rfl
          rw [hdirectory, if_neg (by decide)] at hrun
          rw [hlands] at hup hinside ⊢
          exact moved_of_moveTo hproper hcwd hnul htarget hsource hdirectory hup hinside hrun
      | true =>
          rw [hdirectory, if_pos rfl] at hrun
          cases hsame : (d.sameEntry source target).toOption.getD false with
          | true =>
              have hlands : d.moveLanding source target = target := by
                rw [Disk.moveLanding, hdirectory, hsame]
                rfl
              rw [hsame, if_pos rfl, run_change₂, hnul, htarget, if_neg (by decide)] at hrun
              rw [hlands]
              rcases hrename : d.rename source target with code | renamed
              · rw [hrename] at hrun
                cases hrun
                exact Disk.moved_of_unchanged d _ _ nofun
              · rw [hrename] at hrun
                cases hrun
                exact Disk.moved_of_rename hcwd hsource hrename
          | false =>
              have hlands : d.moveLanding source target =
                  Path.join target (Path.lastSegment source) := by
                rw [Disk.moveLanding, hdirectory, hsame]
                rfl
              rw [hsame, if_neg (by decide)] at hrun
              rw [hlands] at hup hinside ⊢
              cases hthere : d.pathExists (Path.join target (Path.lastSegment source)) with
              | true =>
                  rw [hthere, if_pos rfl] at hrun
                  cases hrun
                  exact Disk.moved_of_unchanged d _ _ nofun
              | false =>
                  rw [hthere, if_neg (by decide)] at hrun
                  have hfree : d.isDirectory (Path.join target (Path.lastSegment source)) = false := by
                    rw [Bool.eq_false_iff]
                    intro hfull
                    rw [Disk.pathExists_of_isDirectory hfull] at hthere
                    cases hthere
                  exact moved_of_moveTo hproper hcwd hnul
                    (hasNul_join htarget (hasNul_lastSegment hnul)) hsource hfree hup hinside hrun

theorem Disk.sameEntry_eq_true {a b : String} (hsame : d.sameEntry a b = .ok true) :
    ∃ place one other, d.status true a = .ok (place, one) ∧ d.status true b = .ok (place, other) := by
  unfold Disk.sameEntry at hsame
  rcases ha : d.status true a with code | ⟨p, one⟩
  · rw [ha] at hsame
    cases hsame
  rcases hb : d.status true b with code | ⟨q, other⟩
  · rw [ha, hb] at hsame
    cases hsame
  rw [ha, hb] at hsame
  obtain rfl : p = q := by simpa using Except.ok.inj hsame
  exact ⟨p, one, other, rfl, rfl⟩

/-- A directory that is moved to a path that leads to it stays where it is. -/
theorem stays_of_move (hcwd : d.tree.kindAt d.cwd.base = some .directory)
    (hnul : Disk.hasNul source = false)
    (hsource : d.status false source = .ok (⟨origin, []⟩, node)) (hlink : d.isLink source = false)
    (hdirectory : d.isDirectory target = true) (hsame : d.sameEntry source target = .ok true)
    (hrun : (DiskM.move source target).run d = (result, d')) : d' = d := by
  have htarget := Disk.hasNul_of_isDirectory hdirectory
  rw [DiskM.run_move hnul htarget, hdirectory, hsame, if_pos rfl] at hrun
  change (DiskM.change₂ source target fun d => d.rename source target).run d = (result, d') at hrun
  rw [run_change₂, hnul, htarget, if_neg (by decide)] at hrun
  rcases hrename : d.rename source target with code | renamed
  · rw [hrename] at hrun
    cases hrun
    rfl
  · rw [hrename] at hrun
    cases hrun
    have hother : ∀ linked, node ≠ .link linked := by
      rintro linked rfl
      rw [Disk.isLink, Disk.node?, hnul, hsource] at hlink
      cases hlink
    obtain ⟨place, one, other, hfirst, hsecond⟩ := Disk.sameEntry_eq_true hsame
    rw [Disk.status_follow hsource hother] at hfirst
    obtain ⟨rfl, -⟩ := Prod.mk.inj (Except.ok.inj hfirst)
    obtain ⟨place, hlocate⟩ := Disk.exists_place_of_isDirectory hdirectory
    have hplace : place = ⟨origin, []⟩ := by
      rcases Disk.status_eq_ok_iff.mp hsecond with ⟨hthere, -⟩ | ⟨parent, name, hthere, -⟩
      · rw [hlocate] at hthere
        exact Spot.directory.inj (Except.ok.inj hthere)
      · rw [hlocate] at hthere
        cases hthere
    subst hplace
    have hkind := Disk.kindAt_of_locate hcwd hlocate
    rw [Node.kindAt, Disk.get?_of_status hcwd hsource rfl] at hkind
    have hdir : node.isDir = true := by
      cases node with
      | dir es modified => rfl
      | _ => cases hkind
    exact Disk.rename_onto_self hcwd hsource hdir (Disk.enters_of_locate hlocate) hrename

/-! ## Reports of moves -/

theorem run_mv_cases {report : Except Failure Report}
    (hrun : (DiskM.mv source target).run d = (report, d')) :
    (d' = d ∧ report ≠ .ok .success) ∨
      (Disk.hasNul source = false ∧ ∃ result, (DiskM.move source target).run d = (result, d') ∧
        (report = .ok .success → result = .ok ())) := by
  unfold DiskM.mv at hrun
  rw [run_bind, run_get] at hrun
  dsimp only at hrun
  split at hrun
  · next hexists =>
      obtain ⟨reported, haction, hsuccess⟩ :=
        exists_run_of_reporting (fun _ => respects_pure isFrame_eq _) hrun
      rw [run_bind] at haction
      rcases hmove : (DiskM.move source target).run d with ⟨result, t⟩
      rw [hmove] at haction
      refine Or.inr ⟨Disk.hasNul_of_entryExists hexists, ?_⟩
      cases result with
      | error failure =>
          cases haction
          exact ⟨_, rfl, fun hok => by cases hsuccess hok⟩
      | ok _ =>
          cases haction
          exact ⟨_, rfl, fun _ => rfl⟩
  · cases hrun
    exact Or.inl ⟨rfl, nofun⟩

end

namespace Act

/-- A move keeps every entry that was at or below the source, at its place there or below the
landing, whatever it ends with; a success has moved the whole tree.  Two things are asked for: that
the landing does not go up behind a missing directory, and that a landing inside the source is seen
to be there by the texts of the two paths.  A directory that is moved to itself stays as it is. -/
theorem mv_loses_nothing (source target : String) (m : Machine κ) (origin : Location) (node : Node)
    (hproper : m.disk.tree.Proper)
    (hcwd : m.disk.tree.kindAt m.disk.cwd.base = some .directory)
    (hsource : m.disk.status false source = .ok (⟨origin, []⟩, node))
    (hup : ¬m.disk.GoesUp (m.disk.moveLanding source target))
    (hinside : origin <+: m.disk.aim (m.disk.moveLanding source target) →
      origin ≠ m.disk.aim (m.disk.moveLanding source target) →
        m.disk.liesWithin source target ≠ .ok false) :
    m.disk.Moved origin (m.disk.aim (m.disk.moveLanding source target))
        (resultOf (mv source target) m = .ok .success) (stateAfter (mv source target) m).disk ∧
      (m.disk.isLink source = false → m.disk.isDirectory target = true →
        m.disk.sameEntry source target = .ok true →
          (stateAfter (mv source target) m).disk = m.disk) := by
  unfold mv
  rw [resultOf, stateAfter, run_onDisk]
  rcases run_mv_cases (run_eq (DiskM.mv source target) m.disk) with
    ⟨hsame, hfailed⟩ | ⟨hnul, result, hmove, hsuccess⟩
  · dsimp only
    rw [hsame]
    exact ⟨Disk.moved_of_unchanged _ _ _ fun hok => absurd hok hfailed, fun _ _ _ => rfl⟩
  · refine ⟨(moved_of_move hproper hcwd hnul hsource hup hinside hmove).mono hsuccess, ?_⟩
    intro hlink hdirectory hsame
    exact stays_of_move hcwd hnul hsource hlink hdirectory hsame hmove

/-- A machine with a file in a directory that a link leads to. -/
def twinMachine : Machine Unit where
  disk :=
    { tree := .dir [("d", .dir [("f", .file [120] false none)] none), ("l", .link "d")] none
      cwd := .root }
  environment := []

theorem proper_twinMachine : twinMachine.disk.tree.Proper := by
  have hfirst : (Node.empty.put [] "d" .empty).Proper :=
    Node.proper_empty.put (by decide) nofun rfl rfl
  have hsecond : ((Node.empty.put [] "d" .empty).put ["d"] "f" (.file [120] false none)).Proper :=
    hfirst.put (by decide) nofun rfl rfl
  have hthird : (((Node.empty.put [] "d" .empty).put ["d"] "f" (.file [120] false none)).put [] "l"
      (.link "d")).Proper :=
    hsecond.put (by decide) (fun _ hlink => by cases hlink; decide) rfl rfl
  exact hthird

/-- A directory is moved to where the directory above is missing, so that it is copied and removed. -/
theorem mv_loses_nothing_twinMachine :
    resultOf (mv "d" "x/y") twinMachine = .ok .success ∧
      (stateAfter (mv "d" "x/y") twinMachine).disk.tree.ownAt ["x", "y", "f"] =
          some (.file [120] false none) ∧
        ∀ rest, (stateAfter (mv "d" "x/y") twinMachine).disk.tree.ownAt (["d"] ++ rest) = none := by
  have hsuccess : resultOf (mv "d" "x/y") twinMachine = .ok .success := by decide +kernel
  have haim : twinMachine.disk.aim (twinMachine.disk.moveLanding "d" "x/y") = ["x", "y"] := by
    decide +kernel
  have hapart : ¬["d"] <+: twinMachine.disk.aim (twinMachine.disk.moveLanding "d" "x/y") := by
    rw [haim]
    decide
  have hup : ¬twinMachine.disk.GoesUp (twinMachine.disk.moveLanding "d" "x/y") := by
    rintro ⟨hmem, -⟩
    revert hmem
    decide +kernel
  have hmoved := (mv_loses_nothing "d" "x/y" twinMachine ["d"] _ proper_twinMachine rfl rfl hup
    fun hinside => absurd hinside hapart).1
  rw [haim] at hmoved
  exact ⟨hsuccess, hmoved.arrived hsuccess (by decide) ["f"] nofun,
    hmoved.gone hsuccess (by decide)⟩

/-- Behind the link the directory is moved into itself, and the file is gone. -/
theorem lost_twinMachine :
    twinMachine.disk.tree.ownAt ["d", "f"] = some (.file [120] false none) ∧
      twinMachine.disk.aim (twinMachine.disk.moveLanding "d" "l/x") = ["d", "x"] ∧
        resultOf (mv "d" "l/x") twinMachine = .ok .success ∧
          (stateAfter (mv "d" "l/x") twinMachine).disk.tree.kindAt ["d"] = none :=
  ⟨rfl, by decide +kernel, by decide +kernel, by decide +kernel⟩

end Act

end BuildRunner
