import BuildRunner.Proofs.Disk.Removal
import BuildRunner.Proofs.Path.Relative

/-!
# Ways into directories

A path leads to a directory if all of its names can be entered one after the other.  So the directory
above leads to one as well, and a name behind the path is looked up where the path leads.  What a path
leads to is the same with and without following links, unless it leads to a link.
-/

namespace BuildRunner

variable {tree : Node} {links : Nat} {place there : Place} {names : List String}

/-! ## Entering one name after the other -/

theorem descend_append (tree : Node) (place : Place) (front rest : List String) :
    descend tree place (front ++ rest) =
      match descend tree place front with
      | .arrived there => descend tree there rest
      | .refused code => .refused code
      | .link parent target behind => .link parent target (behind ++ rest) := by
  induction front generalizing place with
  | nil => rfl
  | cons name front ih =>
      rw [List.cons_append, descend_cons, descend_cons]
      split_ifs with hdot hdotdot hlong
      · exact ih place
      · exact ih place.up
      · rfl
      · cases place.kindOf tree name with
        | none => rfl
        | some kind =>
            cases kind with
            | directory => exact ih (place.down name)
            | _ => rfl

theorem enter_append (tree : Node) (links : Nat) (place : Place) (front rest : List String) :
    enter tree links place (front ++ rest) =
      (enter tree links place front).bind fun found => enter tree found.2 found.1 rest := by
  induction links generalizing place front with
  | zero =>
      rw [enter, enter, descend_append]
      cases descend tree place front with
      | arrived there => rw [Except.bind, enter]
      | refused code => rfl
      | link parent target behind => rfl
  | succ links ih =>
      rw [enter, enter, descend_append]
      cases descend tree place front with
      | arrived there => rw [Except.bind, enter]
      | refused code => rfl
      | link parent target behind =>
          dsimp only
          rw [← List.append_assoc, ih]

theorem enter_nil (tree : Node) (links : Nat) (place : Place) :
    enter tree links place [] = .ok (place, links) := by
  cases links <;> rfl

theorem links_le_of_enter {left : Nat} (hfound : enter tree links place names = .ok (there, left)) :
    left ≤ links := by
  induction links generalizing place names with
  | zero =>
      rw [enter] at hfound
      cases hdescend : descend tree place names with
      | arrived end' => simp_all
      | refused code => simp [hdescend] at hfound
      | link parent target rest => simp [hdescend] at hfound
  | succ links ih =>
      rw [enter] at hfound
      cases hdescend : descend tree place names with
      | arrived end' => simp_all
      | refused code => simp [hdescend] at hfound
      | link parent target rest =>
          rw [hdescend] at hfound
          exact Nat.le_succ_of_le (ih hfound)

/-- A name is entered if it is that of a directory, or that of a link to one. -/
theorem enter_singleton (tree : Node) (links : Nat) (place : Place) (name : String) :
    enter tree links place [name] =
      if name = "." then .ok (place, links)
      else if name = ".." then .ok (place.up, links)
      else if greatestName < name.utf8ByteSize then .error .nameTooLong
      else
        match place.kindOf tree name, links with
        | none, _ => .error .notFound
        | some .directory, links => .ok (place.down name, links)
        | some (.link _), 0 => .error .linkLoop
        | some (.link target), links + 1 =>
          enter tree links (startPlace place target) (pathNames target)
        | some _, _ => .error .notDirectory := by
  cases links with
  | _ =>
      rw [enter, descend_cons]
      split_ifs with hdot hdotdot hlong
      · rfl
      · rfl
      · rfl
      · cases place.kindOf tree name with
        | none => rfl
        | some kind =>
            cases kind with
            | link target => simp
            | _ => rfl

/-- A look-up comes to a directory where all names can be entered. -/
theorem locateFrom_eq_directory_iff {fuel : Nat} (hfuel : links < fuel) (slash : Bool) :
    locateFrom tree true fuel links place names slash = .ok (.directory there) ↔
      ∃ left, enter tree links place names = .ok (there, left) := by
  induction fuel generalizing links place names slash with
  | zero => exact absurd hfuel (Nat.not_lt_zero _)
  | succ fuel ih =>
      rw [locateFrom_succ]
      rcases List.eq_nil_or_concat names with rfl | ⟨front, name, rfl⟩
      · simp [enter_nil, Except.bind]
      · rw [List.concat_eq_append, List.dropLast_concat, List.getLast?_concat, enter_append]
        cases hfront : enter tree links place front with
        | error code => simp [Except.bind]
        | ok found =>
            obtain ⟨parent, left⟩ := found
            have hleft := links_le_of_enter hfront
            simp only [Except.bind, enter_singleton]
            split_ifs with hdot hdotdot hlong
            · simp
            · simp
            · simp
            · rw [Place.kindOf]
              rcases (parent.entries tree).lookup name with _ | (_ | _ | target | _ | _)
              · simp [lastSpot]
              · cases slash <;> simp [lastSpot, Node.kind]
              · simp [lastSpot, Node.kind]
              · cases left with
                | zero => simp [lastSpot, Node.kind, behindLink]
                | succ left =>
                    simp only [lastSpot, Option.map_some, Node.kind, behindLink, Bool.true_or, if_true]
                    exact ih (by omega) _
              · cases slash <;> simp [lastSpot, Node.kind]
              · cases slash <;> simp [lastSpot, Node.kind]

/-- A path leads to a directory where all of its names can be entered. -/
theorem locate_eq_directory_iff {here : Place} {path : String} (hpath : checkPath path = .ok ()) :
    locate tree here true path = .ok (.directory there) ↔
      ∃ left, enter tree linkLimit (startPlace here path) (pathNames path) = .ok (there, left) := by
  rw [locate, hpath]
  exact locateFrom_eq_directory_iff (Nat.lt_succ_self _) _

/-! ## Names behind a path -/

/-- Where a look-up starts is known from the first character. -/
theorem startPlace_of_front {path other : String} (hne : path ≠ "")
    (hfront : path.toList <+: other.toList) (here : Place) :
    startPlace here other = startPlace here path := by
  have habsolute : Path.isAbsolute other = Path.isAbsolute path := by
    obtain ⟨rest, hrest⟩ := hfront
    rw [Path.isAbsolute, Path.isAbsolute, ← hrest]
    cases hchars : path.toList with
    | nil => exact absurd (String.toList_eq_nil_iff.mp hchars) hne
    | cons c front => rfl
  rw [startPlace, startPlace, habsolute]

theorem pathNames_of_slash_free {name : String} (hname : '/' ∉ name.toList) :
    pathNames name = if name = "" then [] else [name] := by
  rw [pathNames, Path.segments_of_not_mem hname]
  split_ifs with hempty
  · rw [hempty]
    rfl
  · have hchars : (!name.toList.isEmpty) = true := by simpa using hempty
    rw [List.filter_singleton, hchars]
    simp

/-- The names of a relative path come behind those of the directory. -/
theorem pathNames_join_of_slash_free (directory : String) {name : String}
    (hname : '/' ∉ name.toList) :
    pathNames (Path.join directory name) = pathNames directory ++ pathNames name := by
  have hjoin := Path.toList_join_of_not_isAbsolute directory
    (Path.not_isAbsolute_of_slash_free hname)
  rw [pathNames, pathNames, pathNames, hjoin, Path.separator, ← List.map_append,
    ← List.filter_append]
  split_ifs with hend
  · rw [List.append_nil]
    rcases hend with hnil | hslash
    · rw [hnil, List.nil_append, List.filter_append]
      rfl
    · obtain ⟨front, hfront⟩ := List.getLast?_eq_some_iff.mp hslash
      have hnothing : (Path.segments []).filter (fun s => !s.isEmpty) = [] := by decide
      rw [hfront, List.append_assoc, List.singleton_append, Path.segments_append_slash,
        Path.segments_append_slash, List.filter_append, List.filter_append, List.filter_append,
        hnothing, List.append_nil]
  · rw [List.append_assoc, List.singleton_append, Path.segments_append_slash]

section

variable {directory name : String} (hname : Path.IsName name.toList)

include hname

theorem pathNames_join : pathNames (Path.join directory name) = pathNames directory ++ [name] := by
  have hne : name ≠ "" := by
    rintro rfl
    exact hname.ne_nil rfl
  rw [pathNames_join_of_slash_free directory hname.slash_free,
    pathNames_of_slash_free hname.slash_free, if_neg hne]

/-- A name behind any directory is what the path ends in. -/
theorem namesEntry_join (directory : String) : NamesEntry (Path.join directory name) name := by
  refine ⟨?_, ?_, ?_, ?_⟩
  · rw [pathNames_join hname, List.getLast?_concat]
  · rintro rfl
    exact hname.ne_dot rfl
  · rintro rfl
    exact hname.ne_dotdot rfl
  · rw [endsInSlash, Path.toList_join_of_not_isAbsolute directory
      (Path.not_isAbsolute_of_isName hname), List.getLast?_append_of_ne_nil _ hname.ne_nil,
      beq_eq_false_iff_ne]
    exact fun hslash => hname.slash_free (List.mem_of_getLast? hslash)

end

/-! ## Entries that are found with and without following links -/

/-- A look-up that does not end at a link ends there also when links at the end are followed. -/
theorem locateFrom_follow {tree : Node} {fuel links : Nat} {place : Place} {names : List String}
    {slash : Bool} {spot : Spot}
    (hspot : locateFrom tree false fuel links place names slash = .ok spot)
    (hlink : ∀ parent name target, spot ≠ .leaf parent name (.link target)) :
    locateFrom tree true fuel links place names slash = .ok spot := by
  induction fuel generalizing links place names slash with
  | zero => simp [locateFrom] at hspot
  | succ fuel ih =>
      rw [locateFrom_succ] at hspot ⊢
      cases henter : enter tree links place names.dropLast with
      | error code => simp [henter, Except.bind] at hspot
      | ok found =>
          obtain ⟨parent, left⟩ := found
          rw [henter] at hspot
          simp only [Except.bind] at hspot ⊢
          cases hlast : names.getLast? with
          | none => simpa [hlast] using hspot
          | some name =>
              simp only [hlast] at hspot
              dsimp only
              split_ifs at hspot ⊢ with hdot hdotdot hlong
              · exact hspot
              · exact hspot
              · generalize (parent.entries tree).lookup name = entry at hspot ⊢
                rcases entry with _ | (_ | _ | target | _ | _)
                case some.link =>
                    cases slash with
                    | false =>
                        simp only [lastSpot, Bool.or_self, Bool.false_eq_true, if_false,
                          Except.ok.injEq] at hspot
                        exact absurd hspot.symm (hlink _ _ _)
                    | true =>
                        cases left with
                        | zero => simp [lastSpot, behindLink] at hspot
                        | succ left => exact ih hspot
                all_goals exact hspot

namespace Disk

variable {d : Disk} {path : String}

theorem locate_of_status {follow : Bool} {place : Place} {node : Node}
    (hstatus : d.status follow path = .ok (place, node)) (hdirectory : node.isDir = true) :
    d.locate follow path = .ok (.directory place) := by
  unfold status at hstatus
  cases hlocate : d.locate follow path with
  | error code => simp [hlocate, bind, Except.bind] at hstatus
  | ok spot =>
      cases spot with
      | vacant parent name => simp [hlocate, bind, Except.bind] at hstatus
      | directory there =>
          simp only [hlocate, bind, Except.bind, Except.ok.injEq, Prod.mk.injEq] at hstatus
          rw [hstatus.1]
      | leaf parent name other =>
          simp only [hlocate, bind, Except.bind, Except.ok.injEq, Prod.mk.injEq] at hstatus
          have hkind := kind_ne_directory_of_leaf hlocate
          rw [hstatus.2] at hkind
          cases node <;> simp [Node.isDir, Node.kind] at hdirectory hkind

theorem locate_follow {spot : Spot} (hspot : d.locate false path = .ok spot)
    (hlink : ∀ parent name target, spot ≠ .leaf parent name (.link target)) :
    d.locate true path = .ok spot := by
  obtain ⟨hcheck, hspot⟩ := locate_eq_ok_iff.mp hspot
  exact locate_eq_ok_iff.mpr ⟨hcheck, locateFrom_follow hspot hlink⟩

theorem kindOf_follow {kind : Kind} (hkind : d.kindOf false path = some kind)
    (hlink : ∀ target, kind ≠ .link target) : d.kindOf true path = some kind := by
  cases hnul : hasNul path with
  | true =>
      rw [kindOf_of_nul d hnul] at hkind
      cases hkind
  | false =>
      rw [kindOf_eq d hnul] at hkind ⊢
      cases hspot : d.locate false path with
      | error code => simp [hspot, Except.toOption] at hkind
      | ok spot =>
          rw [hspot] at hkind
          have hleaf : ∀ parent name target, spot ≠ .leaf parent name (.link target) := by
            rintro parent name target rfl
            simp only [Except.toOption, Option.bind_some, spotKind, Option.some.injEq] at hkind
            exact hlink target hkind.symm
          rw [locate_follow hspot hleaf]
          exact hkind

end Disk

end BuildRunner
