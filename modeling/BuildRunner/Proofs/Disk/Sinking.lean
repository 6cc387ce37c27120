import BuildRunner.Proofs.Disk.Entering

/-!
# Directories that are taken away

A directory can be removed while a program is in it.  The place of the program then is the same one,
with more of the directories on the way lost.  From there less can be looked up than before, and
whatever is found is what was found from the place as it stood.  So a removal brings nothing into
sight, and the entry that it takes out is out of sight by every path that led to it.
-/

namespace BuildRunner

/-- The same directory, of which more of the way down may be lost. -/
structure Place.Sinks (place place' : Place) : Prop where
  same : place'.base ++ place'.lost = place.base ++ place.lost
  deeper : place.lost.length ≤ place'.lost.length

namespace Place

theorem Sinks.refl (place : Place) : place.Sinks place := ⟨rfl, le_rfl⟩

theorem Sinks.trans {place place' place'' : Place} (h : place.Sinks place')
    (h' : place'.Sinks place'') : place.Sinks place'' :=
  ⟨h'.same.trans h.same, h.deeper.trans h'.deeper⟩

/-- A place of which nothing is lost has not sunk. -/
theorem Sinks.eq_of_here {place place' : Place} (hsinks : place.Sinks place')
    (hhere : place'.lost = []) : place = place' := by
  obtain ⟨base, lost⟩ := place
  obtain ⟨base', lost'⟩ := place'
  obtain ⟨hsame, hdeeper⟩ := hsinks
  dsimp only at hhere hsame hdeeper
  subst lost'
  have hlost : lost = [] := List.length_eq_zero_iff.mp (Nat.le_zero.mp hdeeper)
  subst lost
  simp only [List.append_nil] at hsame
  rw [hsame]

theorem Sinks.up {place place' : Place} (hsinks : place.Sinks place') :
    place.up.Sinks place'.up := by
  obtain ⟨base, lost⟩ := place
  obtain ⟨base', lost'⟩ := place'
  rcases List.eq_nil_or_concat lost' with rfl | ⟨front', name', rfl⟩
  · rw [hsinks.eq_of_here rfl]
    exact Sinks.refl _
  · obtain ⟨hsame, hdeeper⟩ := hsinks
    rcases List.eq_nil_or_concat lost with rfl | ⟨front, name, rfl⟩
    · simp only [List.concat_eq_append, List.append_nil] at hsame
      refine ⟨?_, Nat.zero_le _⟩
      simp [Place.up, ← hsame, ← List.append_assoc]
    · simp only [List.concat_eq_append, ← List.append_assoc] at hsame
      have hfront := List.append_inj_left' hsame rfl
      refine ⟨?_, ?_⟩
      · simpa [Place.up] using hfront
      · simpa [Place.up] using hdeeper

theorem sinks_afterRemoval (place : Place) (location : Location) :
    place.Sinks (place.afterRemoval location) := by
  unfold afterRemoval
  split
  · next hremoved =>
      obtain ⟨hbase, hne⟩ := hremoved
      rcases List.eq_nil_or_concat location with rfl | ⟨front, name, rfl⟩
      · exact absurd rfl hne
      · refine ⟨?_, ?_⟩
        · simp [hbase]
        · simp
  · exact Sinks.refl place

theorem sinks_afterClearing (place : Place) (location : Location) :
    place.Sinks (place.afterClearing location) := by
  unfold afterClearing
  split
  · next hbelow =>
      obtain ⟨rest, hrest⟩ := List.isPrefixOf_iff_prefix.mp hbelow
      refine ⟨?_, ?_⟩
      · simp [← hrest]
      · simp
  · exact Sinks.refl place

/-- Where a look-up starts sinks with the current directory. -/
theorem Sinks.startPlace {here here' : Place} (hsinks : here.Sinks here') (path : String) :
    (startPlace here path).Sinks (startPlace here' path) := by
  unfold BuildRunner.startPlace
  split
  · exact Sinks.refl _
  · exact hsinks

/-- Nothing is to be seen in a directory that is lost. -/
theorem lost_eq_nil_of_kindOf {tree : Node} {place : Place} {name : String} {kind : Kind}
    (hkind : place.kindOf tree name = some kind) : place.lost = [] := by
  rw [kindOf_eq] at hkind
  split at hkind
  · next hlost => exact hlost
  · cases hkind

end Place

variable {tree : Node} {place place' there' : Place} {names : List String}

/-! ## Look-ups from a place that has sunk -/

/-- The outcome of going down from a place, as far as it stays after the place has sunk. -/
def Descent.Stays (before : Descent) : Descent → Prop
  | .arrived there' => ∃ there, before = .arrived there ∧ there.Sinks there'
  | .refused _ => True
  | .link parent target rest => before = .link parent target rest

theorem stays_descend (tree : Node) (hsinks : place.Sinks place') (names : List String) :
    (descend tree place names).Stays (descend tree place' names) := by
  induction names generalizing place place' with
  | nil => exact ⟨place, rfl, hsinks⟩
  | cons name rest ih =>
      rw [descend_cons, descend_cons]
      split_ifs with hdot hdotdot hlong
      · exact ih hsinks
      · exact ih hsinks.up
      · trivial
      · cases hkind : place'.kindOf tree name with
        | none => trivial
        | some kind =>
            have hplace := hsinks.eq_of_here (Place.lost_eq_nil_of_kindOf hkind)
            subst place'
            rw [hkind]
            cases kind with
            | directory => exact ih (Place.Sinks.refl _)
            | link target => rfl
            | _ => trivial

theorem enter_of_sinks {links left : Nat} (hsinks : place.Sinks place')
    (hfound : enter tree links place' names = .ok (there', left)) :
    ∃ there, enter tree links place names = .ok (there, left) ∧ there.Sinks there' := by
  have hstays := stays_descend tree hsinks names
  rw [enter] at hfound ⊢
  cases hdescend : descend tree place' names with
  | arrived arrived' =>
      rw [hdescend] at hstays hfound
      obtain ⟨there, hthere, hbelow⟩ := hstays
      simp only [Except.ok.injEq, Prod.mk.injEq] at hfound
      obtain ⟨rfl, rfl⟩ := hfound
      exact ⟨there, by rw [hthere], hbelow⟩
  | refused code => simp [hdescend] at hfound
  | link parent target rest =>
      rw [hdescend] at hstays hfound
      have hbefore : descend tree place names = .link parent target rest := hstays
      rw [hbefore]
      exact ⟨there', hfound, Place.Sinks.refl _⟩

/-- Something has been found. -/
def Spot.IsFound : Spot → Prop
  | .vacant .. => False
  | _ => True

theorem isFound_lastSpot {follow slash : Bool} {parent : Place} {name : String}
    {go : String → Except Errno Spot} {entry : Option Node} {spot : Spot}
    (hspot : lastSpot follow slash parent name go entry = .ok spot) (hfound : spot.IsFound) :
    ∃ node, entry = some node := by
  cases entry with
  | some node => exact ⟨node, rfl⟩
  | none =>
      simp only [lastSpot, Except.ok.injEq] at hspot
      subst spot
      exact hfound.elim

theorem locateFrom_of_sinks {follow slash : Bool} {fuel links : Nat} {spot' : Spot}
    (hsinks : place.Sinks place')
    (hspot : locateFrom tree follow fuel links place' names slash = .ok spot')
    (hfound : spot'.IsFound) :
    ∃ spot, locateFrom tree follow fuel links place names slash = .ok spot ∧ spot.IsFound := by
  cases fuel with
  | zero => simp [locateFrom] at hspot
  | succ fuel =>
      rw [locateFrom_succ] at hspot ⊢
      cases henter : enter tree links place' names.dropLast with
      | error code => simp [henter, Except.bind] at hspot
      | ok found =>
          obtain ⟨there', left⟩ := found
          obtain ⟨there, hthere, hbelow⟩ := enter_of_sinks hsinks henter
          rw [henter] at hspot
          rw [hthere]
          simp only [Except.bind] at hspot ⊢
          cases hlast : names.getLast? with
          | none => exact ⟨_, rfl, trivial⟩
          | some name =>
              simp only [hlast] at hspot
              dsimp only
              split_ifs at hspot ⊢ with hdot hdotdot hlong
              · exact ⟨_, rfl, trivial⟩
              · exact ⟨_, rfl, trivial⟩
              · obtain ⟨node, hnode⟩ := isFound_lastSpot hspot hfound
                have hkind : there'.kindOf tree name = some node.kind := by
                  rw [Place.kindOf, hnode]
                  rfl
                have hsame := hbelow.eq_of_here (Place.lost_eq_nil_of_kindOf hkind)
                subst there'
                exact ⟨spot', hspot, hfound⟩

/-! ## Disks that lose entries -/

/-- Entries have been taken out, and the current directory with them if it was among them. -/
structure Disk.Recedes (d d' : Disk) : Prop where
  tree : d.tree.Prunes d'.tree
  current : d.cwd.Sinks d'.cwd

theorem isFrame_recedes : IsFrame Disk.Recedes where
  refl _ := ⟨Node.Prunes.refl _, Place.Sinks.refl _⟩
  trans h h' := ⟨h.tree.trans h'.tree, h.current.trans h'.current⟩

namespace Disk

variable {d d' : Disk} {path : String}

theorem recedes_of_unlink (hunlink : d.unlink path = .ok d') : d.Recedes d' := by
  obtain ⟨parent, name, -, -, htree, hcwd, -⟩ := unlink_inv hunlink
  exact ⟨htree ▸ Node.prunes_drop _ _ _, hcwd ▸ Place.Sinks.refl _⟩

theorem recedes_of_removeDirectory (hremove : d.removeDirectory path = .ok d') : d.Recedes d' := by
  obtain ⟨parent, name, slash, -, -, htree, hcwd, -⟩ := removeDirectory_inv hremove
  exact ⟨htree ▸ Node.prunes_drop _ _ _, hcwd ▸ Place.sinks_afterRemoval _ _⟩

theorem recedes_clear (d : Disk) (location : Location) : d.Recedes (d.clear location) :=
  ⟨Node.prunes_clear _ _, Place.sinks_afterClearing _ _⟩

theorem entryExists_iff (d : Disk) (path : String) :
    d.entryExists path = true ↔
      hasNul path = false ∧ ∃ spot, d.locate false path = .ok spot ∧ spot.IsFound := by
  unfold entryExists node? status
  cases hasNul path with
  | true => simp
  | false =>
      cases d.locate false path with
      | error code => simp [bind, Except.bind, Except.toOption]
      | ok spot =>
          cases spot <;> simp [bind, Except.bind, Except.toOption, Spot.IsFound]

/-- What is found after entries have been taken out was found before. -/
theorem Recedes.entryExists (hrecedes : d.Recedes d') (hexists : d'.entryExists path = true) :
    d.entryExists path = true := by
  obtain ⟨hnul, spot', hlocate, hfound⟩ := (entryExists_iff d' path).mp hexists
  obtain ⟨hcheck, hlocate⟩ := locate_eq_ok_iff.mp hlocate
  -- first the place sinks back up in the smaller tree, then the tree gets its entries back
  have hlifted : ∃ spot, ({ d' with cwd := d.cwd } : Disk).locate false path = .ok spot ∧
      spot.IsFound := by
    obtain ⟨spot, hspot, hfound⟩ :=
      locateFrom_of_sinks (hrecedes.current.startPlace path) hlocate hfound
    exact ⟨spot, locate_eq_ok_iff.mpr ⟨hcheck, hspot⟩, hfound⟩
  obtain ⟨spot, hspot, hfound⟩ := hlifted
  have hprunes : d.tree.Prunes ({ d' with cwd := d.cwd } : Disk).tree := hrecedes.tree
  have hremains := locate_of_prunes hprunes rfl hspot
  refine (entryExists_iff d path).mpr ⟨hnul, ?_⟩
  cases spot with
  | directory place => exact ⟨_, hremains, trivial⟩
  | leaf parent name node =>
      obtain ⟨old, hold, -⟩ := hremains
      exact ⟨_, hold, trivial⟩
  | vacant parent name => exact hfound.elim

/-- The directory that holds the last segment of a path is still the one that held it before. -/
theorem Recedes.tip (hrecedes : d.Recedes d') {parent' : Place} {tip : Tip}
    (htip : d'.tip path = .ok (parent', tip)) :
    ∃ parent, d.tip path = .ok (parent, tip) ∧ parent.Sinks parent' := by
  obtain ⟨hcheck, hlast, left, henter⟩ := tip_eq_ok_iff.mp htip
  obtain ⟨parent, hparent, hsinks⟩ := enter_of_sinks (hrecedes.current.startPlace path) henter
  refine ⟨parent, tip_eq_ok_iff.mpr ⟨hcheck, hlast, left, ?_⟩, hsinks⟩
  rcases enter_of_prunes hrecedes.tree linkLimit (startPlace d.cwd path)
    (pathNames path).dropLast with hnone | hsame
  · rw [hnone] at hparent
    cases hparent
  · rwa [← hsame]

/-- A path that leads somewhere has a tip, and what it leads to by a name is under that name. -/
theorem exists_tip_of_locate {follow : Bool} {spot : Spot}
    (hspot : d.locate follow path = .ok spot) :
    ∃ parent tip, d.tip path = .ok (parent, tip) ∧
      ∀ name slash, tip = .name name slash → spot.IsFound →
        ∃ kind, parent.kindOf d.tree name = some kind := by
  obtain ⟨hcheck, hspot⟩ := locate_eq_ok_iff.mp hspot
  rw [locateFrom_succ] at hspot
  cases henter : enter d.tree linkLimit (startPlace d.cwd path) (pathNames path).dropLast with
  | error code => simp [henter, Except.bind] at hspot
  | ok found =>
      obtain ⟨parent, left⟩ := found
      refine ⟨parent, lastTip path, tip_eq_ok_iff.mpr ⟨hcheck, rfl, left, henter⟩, ?_⟩
      intro name slash htip hfound
      obtain ⟨hlast, hdot, hdotdot, -⟩ := lastTip_eq_name_iff.mp htip
      rw [henter, hlast] at hspot
      simp only [Except.bind, if_neg hdot, if_neg hdotdot] at hspot
      split at hspot
      · cases hspot
      · obtain ⟨node, hnode⟩ := isFound_lastSpot hspot hfound
        exact ⟨node.kind, by rw [Place.kindOf, hnode]; rfl⟩

/-- Once the entry of a name is out of the tree, the path that led to it leads nowhere. -/
theorem Recedes.entryExists_eq_false (hrecedes : d.Recedes d') {parent : Place} {name : String}
    {slash : Bool} (htip : d.tip path = .ok (parent, .name name slash))
    (hgone : d'.tree.kindAt (parent.base ++ [name]) = none) : d'.entryExists path = false := by
  rw [Bool.eq_false_iff]
  intro hexists
  obtain ⟨-, spot, hspot, hfound⟩ := (entryExists_iff d' path).mp hexists
  obtain ⟨parent', tip', htip', hentry⟩ := exists_tip_of_locate hspot
  obtain ⟨before, hbefore, hsinks⟩ := hrecedes.tip htip'
  rw [htip] at hbefore
  simp only [Except.ok.injEq, Prod.mk.injEq] at hbefore
  obtain ⟨rfl, rfl⟩ := hbefore
  obtain ⟨kind, hkind⟩ := hentry name slash rfl hfound
  have hhere := Place.lost_eq_nil_of_kindOf hkind
  have hsame := hsinks.eq_of_here hhere
  subst parent'
  rw [Place.kindOf_eq, if_pos hhere, hgone] at hkind
  cases hkind

end Disk

end BuildRunner
