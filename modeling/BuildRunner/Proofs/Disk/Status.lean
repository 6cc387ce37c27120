import BuildRunner.Proofs.Disk.Joining
import BuildRunner.Proofs.Disk.Opening

/-!
# What a path leads to

A path leads to a node of the tree, which is at the place that comes with it, or to a directory that
was removed and looks empty.  The names of a path may enter a directory although the path is too
long to be asked for; a name behind the path is then looked up in that directory.
-/

namespace BuildRunner

theorem lookup_of_lastSpot {tree : Node} {follow slash : Bool} {above parent : Place}
    {last name : String} {go : String → Except Errno Spot} {node : Node}
    (hfound : lastSpot follow slash above last go ((above.entries tree).lookup last) =
      .ok (.leaf parent name node)) :
    (parent.entries tree).lookup name = some node ∨
      ∃ target, go target = .ok (.leaf parent name node) := by
  cases hentry : (above.entries tree).lookup last with
  | none => simp [hentry, lastSpot] at hfound
  | some entry =>
      rw [hentry] at hfound
      cases entry with
      | dir es modified => simp [lastSpot] at hfound
      | link target =>
          simp only [lastSpot] at hfound
          split at hfound
          · exact Or.inr ⟨target, hfound⟩
          · simp only [Except.ok.injEq, Spot.leaf.injEq] at hfound
            obtain ⟨rfl, rfl, rfl⟩ := hfound
            exact Or.inl hentry
      | _ =>
          cases slash with
          | true => simp [lastSpot] at hfound
          | false =>
              simp only [lastSpot, Bool.false_eq_true, if_false, Except.ok.injEq,
                Spot.leaf.injEq] at hfound
              obtain ⟨rfl, rfl, rfl⟩ := hfound
              exact Or.inl hentry

/-- A look-up that ends at a leaf has found it in its directory. -/
theorem lookup_of_locateFrom {tree : Node} {follow : Bool} {fuel links : Nat}
    {place parent : Place} {names : List String} {slash : Bool} {name : String} {node : Node}
    (hfound : locateFrom tree follow fuel links place names slash =
      .ok (.leaf parent name node)) : (parent.entries tree).lookup name = some node := by
  induction fuel generalizing links place names slash with
  | zero => simp [locateFrom] at hfound
  | succ fuel ih =>
      rw [locateFrom_succ] at hfound
      cases henter : enter tree links place names.dropLast with
      | error code => simp [henter, Except.bind] at hfound
      | ok found =>
          obtain ⟨above, left⟩ := found
          rw [henter] at hfound
          simp only [Except.bind] at hfound
          cases hlast : names.getLast? with
          | none => simp [hlast] at hfound
          | some last =>
              simp only [hlast] at hfound
              split_ifs at hfound
              · simp at hfound
              · simp at hfound
              · rcases lookup_of_lastSpot hfound with hentry | ⟨target, hbehind⟩
                · exact hentry
                · cases left with
                  | zero => simp [behindLink] at hbehind
                  | succ left => exact ih hbehind

namespace Disk

variable {d : Disk} {path : String} {follow : Bool}

theorem lookup_of_locate {parent : Place} {name : String} {node : Node}
    (hlocate : d.locate follow path = .ok (.leaf parent name node)) :
    (parent.entries d.tree).lookup name = some node :=
  lookup_of_locateFrom (locate_eq_ok_iff.mp hlocate).2

theorem status_eq_ok_iff {place : Place} {node : Node} :
    d.status follow path = .ok (place, node) ↔
      (d.locate follow path = .ok (.directory place) ∧ d.nodeAt place = node) ∨
        ∃ parent name, d.locate follow path = .ok (.leaf parent name node) ∧
          parent.down name = place := by
  unfold status
  cases d.locate follow path with
  | error code => simp [bind, Except.bind]
  | ok spot =>
      cases spot with
      | directory there =>
          simp only [bind, Except.bind, Except.ok.injEq, Prod.mk.injEq, Spot.directory.injEq,
            reduceCtorEq, false_and, exists_const, or_false]
          constructor
          · rintro ⟨rfl, hnode⟩
            exact ⟨rfl, hnode⟩
          · rintro ⟨rfl, hnode⟩
            exact ⟨rfl, hnode⟩
      | vacant parent name => simp [bind, Except.bind]
      | leaf parent name other =>
          simp only [bind, Except.bind, Except.ok.injEq, Prod.mk.injEq, reduceCtorEq, false_and,
            Spot.leaf.injEq, false_or]
          constructor
          · rintro ⟨hplace, rfl⟩
            exact ⟨parent, name, ⟨rfl, rfl, rfl⟩, hplace⟩
          · rintro ⟨_, _, ⟨rfl, rfl, rfl⟩, hplace⟩
            exact ⟨hplace, rfl⟩

/-- What a path leads to is the same with links followed, unless it is a link. -/
theorem status_follow {place : Place} {node : Node} (hstatus : d.status false path = .ok (place, node))
    (hlink : ∀ target, node ≠ .link target) : d.status true path = .ok (place, node) := by
  refine status_eq_ok_iff.mpr ?_
  rcases status_eq_ok_iff.mp hstatus with ⟨hlocate, hnode⟩ | ⟨parent, name, hlocate, hplace⟩
  · exact Or.inl ⟨locate_follow hlocate (by simp), hnode⟩
  · refine Or.inr ⟨parent, name, locate_follow hlocate ?_, hplace⟩
    rintro _ _ target ⟨⟩
    exact hlink target rfl

/-- What a path leads to is a node of the tree, but for directories that are gone. -/
theorem get?_or_empty_of_status {place : Place} {node : Node}
    (hstatus : d.status follow path = .ok (place, node)) :
    (place.lost = [] ∧ d.tree.get? place.base = some node) ∨ node = .empty := by
  rcases status_eq_ok_iff.mp hstatus with ⟨-, hnode⟩ | ⟨parent, name, hlocate, rfl⟩
  · unfold nodeAt at hnode
    split at hnode
    · next hhere =>
        cases hget : d.tree.get? place.base with
        | none => exact Or.inr (by simpa [hget] using hnode.symm)
        | some found => exact Or.inl ⟨by simpa using hhere, by simpa [hget] using hnode⟩
    · exact Or.inr hnode.symm
  · obtain ⟨hlost, hget⟩ := get?_of_lookup (lookup_of_locate hlocate)
    exact Or.inl ⟨hlost, hget⟩

end Disk

theorem kindAt_up {tree : Node} {place : Place}
    (hdir : tree.kindAt place.base = some .directory) :
    tree.kindAt place.up.base = some .directory := by
  unfold Place.up
  split
  · exact kindAt_dropLast hdir
  · exact hdir

theorem kindAt_startPlace {tree : Node} {place : Place} (path : String)
    (hdir : tree.kindAt place.base = some .directory) :
    tree.kindAt (startPlace place path).base = some .directory := by
  unfold startPlace
  split
  · exact kindAt_root hdir
  · exact hdir

/-- A look-up that starts in a directory of the tree ends in one. -/
theorem kindAt_of_locateFrom {tree : Node} {follow : Bool} {fuel links : Nat}
    {place there : Place} {names : List String} {slash : Bool}
    (hdir : tree.kindAt place.base = some .directory)
    (hfound : locateFrom tree follow fuel links place names slash = .ok (.directory there)) :
    tree.kindAt there.base = some .directory := by
  induction fuel generalizing links place names slash with
  | zero => simp [locateFrom] at hfound
  | succ fuel ih =>
      rw [locateFrom_succ] at hfound
      cases henter : enter tree links place names.dropLast with
      | error code => simp [henter, Except.bind] at hfound
      | ok found =>
          obtain ⟨above, left⟩ := found
          have habove := kindAt_of_enter hdir henter
          rw [henter] at hfound
          simp only [Except.bind] at hfound
          cases hlast : names.getLast? with
          | none =>
              simp only [hlast, Except.ok.injEq, Spot.directory.injEq] at hfound
              exact hfound ▸ habove
          | some last =>
              simp only [hlast] at hfound
              split_ifs at hfound
              · simp only [Except.ok.injEq, Spot.directory.injEq] at hfound
                exact hfound ▸ habove
              · simp only [Except.ok.injEq, Spot.directory.injEq] at hfound
                exact hfound ▸ kindAt_up habove
              · cases hentry : (above.entries tree).lookup last with
                | none => simp [hentry, lastSpot] at hfound
                | some entry =>
                    rw [hentry] at hfound
                    cases entry with
                    | dir es modified =>
                        simp only [lastSpot, Except.ok.injEq, Spot.directory.injEq] at hfound
                        exact hfound ▸ (Disk.kindAt_of_lookup_some hentry).2
                    | link target =>
                        simp only [lastSpot] at hfound
                        split at hfound
                        · cases left with
                          | zero => simp [behindLink] at hfound
                          | succ left => exact ih (kindAt_startPlace target habove) hfound
                        · simp at hfound
                    | _ => cases slash <;> simp [lastSpot] at hfound

namespace Disk

variable {d : Disk} {path : String} {follow : Bool}
  (hcwd : d.tree.kindAt d.cwd.base = some .directory)

include hcwd

theorem kindAt_of_locate {place : Place}
    (hlocate : d.locate follow path = .ok (.directory place)) :
    d.tree.kindAt place.base = some .directory :=
  kindAt_of_locateFrom (kindAt_startPlace path hcwd) (locate_eq_ok_iff.mp hlocate).2

/-- What a path leads to is a node of the tree, at a place that is there. -/
theorem get?_of_status {place : Place} {node : Node}
    (hstatus : d.status follow path = .ok (place, node)) (hhere : place.lost = []) :
    d.tree.get? place.base = some node := by
  rcases status_eq_ok_iff.mp hstatus with ⟨hlocate, hnode⟩ | ⟨parent, name, hlocate, rfl⟩
  · obtain ⟨found, hfound, -⟩ := Option.map_eq_some_iff.mp (kindAt_of_locate hcwd hlocate)
    rw [nodeAt, hhere, if_pos (by rfl), hfound] at hnode
    rw [hfound]
    exact congrArg some hnode
  · exact (get?_of_lookup (lookup_of_locate hlocate)).2

end Disk

/-! ## Directories that a path enters -/

/-- The names of a path lead into the directory at a location, were it not for their length. -/
structure Disk.Enters (d : Disk) (path : String) (base : Location) : Prop where
  ne_empty : path ≠ ""
  way : ∃ left, enter d.tree linkLimit (startPlace d.cwd path) (pathNames path) =
    .ok (⟨base, []⟩, left)

namespace Disk

variable {d d' : Disk} {path name : String} {base : Location}

theorem ne_empty_of_checkPath (hcheck : checkPath path = .ok ()) : path ≠ "" := by
  rintro rfl
  cases hcheck

theorem enters_of_locate (hlocate : d.locate true path = .ok (.directory ⟨base, []⟩)) :
    d.Enters path base := by
  obtain ⟨hcheck, -⟩ := locate_eq_ok_iff.mp hlocate
  exact ⟨ne_empty_of_checkPath hcheck, (locate_eq_directory_iff hcheck).mp hlocate⟩

namespace Enters

variable (henters : d.Enters path base)

include henters

theorem of_keeps (hkeeps : d.tree.KeepsWays d'.tree) (hcwd : d'.cwd = d.cwd) :
    d'.Enters path base := by
  obtain ⟨left, hway⟩ := henters.way
  exact ⟨henters.ne_empty, left, by rw [hcwd]; exact enter_of_keeps hkeeps hway⟩

theorem locate (hcheck : checkPath path = .ok ()) :
    d.locate true path = .ok (.directory ⟨base, []⟩) :=
  (locate_eq_directory_iff hcheck).mpr henters.way

theorem unique {other : Location} (hother : d.Enters path other) : base = other := by
  obtain ⟨left, hway⟩ := henters.way
  obtain ⟨left', hway'⟩ := hother.way
  rw [hway] at hway'
  simp only [Except.ok.injEq, Prod.mk.injEq, Place.mk.injEq, and_true] at hway'
  exact hway'.1

/-- A directory under a proper name is entered behind the path. -/
theorem join (hname : IsAccepted name) (hkind : d.tree.kindAt (base ++ [name]) = some .directory) :
    d.Enters (Path.join path name) (base ++ [name]) := by
  obtain ⟨left, hway⟩ := henters.way
  have hfront := prefix_join hname.toIsName path
  refine ⟨Path.join_ne_empty hname.toIsName, left, ?_⟩
  have hdot : name ≠ "." := by
    rintro rfl
    exact hname.ne_dot rfl
  have hdotdot : name ≠ ".." := by
    rintro rfl
    exact hname.ne_dotdot rfl
  have hhere : (⟨base, []⟩ : Place).kindOf d.tree name = some .directory := by
    rw [Place.kindOf_eq, if_pos rfl]
    exact hkind
  rw [startPlace_of_front henters.ne_empty hfront, pathNames_join hname.toIsName, enter_append,
    hway]
  simp only [Except.bind, enter_singleton, if_neg hdot, if_neg hdotdot,
    if_neg (Nat.not_lt.mpr hname.short), hhere]
  rfl

/-- What a path leads to is the directory that it enters. -/
theorem place_eq {place : Place} {node : Node} (hstatus : d.status true path = .ok (place, node)) :
    place = ⟨base, []⟩ ∧ d.locate true path = .ok (.directory ⟨base, []⟩) := by
  rcases status_eq_ok_iff.mp hstatus with ⟨hlocate, -⟩ | ⟨parent, last, hlocate, -⟩
  · have hentered := henters.locate (locate_eq_ok_iff.mp hlocate).1
    rw [hentered] at hlocate
    simp only [Except.ok.injEq, Spot.directory.injEq] at hlocate
    exact ⟨hlocate.symm, hentered⟩
  · have hentered := henters.locate (locate_eq_ok_iff.mp hlocate).1
    rw [hentered] at hlocate
    cases hlocate

end Enters

end Disk

end BuildRunner
