import BuildRunner.Proofs.Disk.Joining
import BuildRunner.Proofs.Walk.Filters

/-!
# Entries of a walk, looked up by their paths

A walk comes to an entry by the names on the way to it, and gives it the path that these names make.
A look-up of this path goes the same way, as long as the path is not too long: the names are those of
directories, so that no link is followed before the entry.  Whether the path is written from the root
of the walk on, or without the anchor of the current directory, makes no difference.
-/

namespace BuildRunner

open Glob Path

/-! ## Names that the system accepts -/

namespace Node

mutual

/-- The system accepts the name of every entry below a node. -/
def Accepted : Node → Prop
  | .dir es _ => AcceptedEntries es
  | _ => True

def AcceptedEntries : List (String × Node) → Prop
  | [] => True
  | (name, node) :: rest => IsAccepted name ∧ node.Accepted ∧ AcceptedEntries rest

end

mutual

theorem wellNamed_of_accepted : (node : Node) → node.Accepted → node.WellNamed
  | .dir es _, hnode => wellNamedEntries_of_accepted es hnode
  | .link _, _ => trivial
  | .file .., _ => trivial
  | .pipe, _ => trivial
  | .null, _ => trivial

theorem wellNamedEntries_of_accepted :
    (es : List (String × Node)) → AcceptedEntries es → WellNamedEntries es
  | [], _ => trivial
  | (_, node) :: rest, hes =>
      ⟨hes.1.toIsName, wellNamed_of_accepted node hes.2.1, wellNamedEntries_of_accepted rest hes.2.2⟩

end

theorem accepted_of_lookup {es : Entries} {name : String} {node : Node} (hes : AcceptedEntries es)
    (hlookup : es.lookup name = some node) : IsAccepted name ∧ node.Accepted := by
  induction es with
  | nil => simp at hlookup
  | cons entry es ih =>
      obtain ⟨key, found⟩ := entry
      obtain ⟨hkey, hfound, hrest⟩ := hes
      rw [List.lookup_cons] at hlookup
      split at hlookup
      · next hname =>
          simp only [Option.some.injEq] at hlookup
          subst found
          rw [beq_iff_eq] at hname
          exact ⟨hname ▸ hkey, hfound⟩
      · exact ih hrest hlookup

theorem accepted_of_kindAt {node : Node} {location : Location} {kind : Kind}
    (hnode : node.Accepted) (hkind : node.kindAt location = some kind) :
    ∀ name ∈ location, IsAccepted name := by
  induction location generalizing node with
  | nil => simp
  | cons name location ih =>
      rw [kindAt_cons, Option.bind_eq_some_iff] at hkind
      obtain ⟨next, hlookup, hkind⟩ := hkind
      have hentries : AcceptedEntries node.entries := by
        cases node with
        | dir es modified => exact hnode
        | _ => trivial
      obtain ⟨hname, hnext⟩ := accepted_of_lookup hentries hlookup
      intro other hother
      rcases List.mem_cons.mp hother with rfl | hother
      · exact hname
      · exact ih hnext hkind other hother

end Node

/-! ## Paths of a walk -/

theorem pathNames_along {root : String} {way : List String} (hway : AreNames way) :
    pathNames (along root way) = pathNames root ++ way := by
  induction way using List.reverseRecOn with
  | nil => simp [along]
  | append_singleton way name ih =>
      have hfront : AreNames way := fun n hn => hway n (by simp [hn])
      rw [along_concat, pathNames_join (hway name (by simp)), ih hfront, List.append_assoc]

/-- The directory that the last name of a matched path stands behind. -/
def matchedAbove (root : String) (front : List String) : String :=
  if root = "." then String.ofList (joinedNames front) else along root front

section

variable {root name : String} {front : List String} (hway : AreNames (front ++ [name]))

include hway

theorem matchedPath_concat :
    matchedPath root (front ++ [name]) = join (matchedAbove root front) name := by
  unfold matchedAbove
  by_cases hroot : root = "."
  · subst hroot
    rw [if_pos rfl, matchedPath_dot (by simp) hway]
    cases front with
    | nil =>
        have hname : IsName name.toList := hway name (by simp)
        have hempty : join "" name = "" ++ name := by
          rw [join, not_isAbsolute_of_isName hname]
          rfl
        have hjoined : String.ofList (joinedNames []) = "" := rfl
        rw [hjoined, hempty, String.empty_append, List.nil_append]
        exact String.ofList_toList
    | cons first front =>
        have hfront : AreNames (first :: front) := fun n hn => hway n (List.mem_append_left _ hn)
        rw [← along_eq_joinedNames hfront, ← along_concat]
        exact (along_eq_joinedNames hway).symm
  · rw [matchedPath, if_neg hroot, if_neg hroot, along_concat]

theorem namesEntry_matchedPath : NamesEntry (matchedPath root (front ++ [name])) name := by
  rw [matchedPath_concat hway]
  exact namesEntry_join (hway name (by simp)) _

theorem namesEntry_along : NamesEntry (along root (front ++ [name])) name := by
  rw [along_concat]
  exact namesEntry_join (hway name (by simp)) _

end

/-- The path of a walk from a root, from that of a match. -/
def anchored (root path : String) : String := if root = "." then "./" ++ path else path

theorem anchored_matchedPath {root : String} {way : List String} (hne : way ≠ [])
    (hway : AreNames way) : anchored root (matchedPath root way) = along root way := by
  by_cases hroot : root = "."
  · have hanchor : (".".toList ++ separator ".".toList : List Char) = ['.', '/'] := by decide
    apply String.toList_injective
    rw [anchored, if_pos hroot, hroot, matchedPath_dot hne hway, String.toList_append,
      toList_along hne hway, hanchor, String.toList_ofList, String.toList_ofList]
  · rw [anchored, if_neg hroot, matchedPath, if_neg hroot]

theorem utf8ByteSize_le_anchored (root path : String) :
    path.utf8ByteSize ≤ (anchored root path).utf8ByteSize := by
  rw [anchored]
  split
  · rw [String.utf8ByteSize_append]
    exact Nat.le_add_left _ _
  · exact le_rfl

theorem startPlace_joinedNames {way : List String} (hne : way ≠ []) (hway : AreNames way)
    (here : Place) : startPlace here (String.ofList (joinedNames way)) = here := by
  obtain ⟨name, way, rfl⟩ := List.exists_cons_of_ne_nil hne
  have hname : IsName name.toList := hway name (by simp)
  have hfront : name.toList <+: joinedNames (name :: way) := by
    cases way with
    | nil => exact List.prefix_refl _
    | cons next way => exact List.prefix_append _ _
  have hchars : name ≠ "" := by
    rintro rfl
    exact hname.ne_nil rfl
  have hstart : startPlace here (String.ofList (joinedNames (name :: way))) =
      startPlace here name := startPlace_of_front hchars (by rwa [String.toList_ofList]) here
  rw [hstart, startPlace, not_isAbsolute_of_isName hname]
  rfl

theorem pathNames_joinedNames {way : List String} (hne : way ≠ []) (hway : AreNames way) :
    pathNames (String.ofList (joinedNames way)) = way := by
  have hkept : ((way.map String.toList).filter fun s => !s.isEmpty) = way.map String.toList := by
    apply List.filter_eq_self.mpr
    intro part hpart
    obtain ⟨name, hname, rfl⟩ := List.mem_map.mp hpart
    simpa using (hway name hname).ne_nil
  rw [pathNames, String.toList_ofList, segments_joinedNames hne hway, hkept, List.map_map]
  simp [Function.comp_def]

theorem enter_dot_cons (tree : Node) (links : Nat) (place : Place) (names : List String) :
    enter tree links place ("." :: names) = enter tree links place names := by
  have hdot := enter_append tree links place ["."] names
  rw [enter_singleton, if_pos rfl] at hdot
  exact hdot

/-- Directories that stand in the tree are entered by their names. -/
theorem enter_of_directory {tree : Node} {links : Nat} {place : Place} {front : List String}
    (hhere : place.lost = []) (hdir : tree.kindAt (place.base ++ front) = some .directory)
    (hfront : ∀ name ∈ front, IsAccepted name) :
    enter tree links place front = .ok (⟨place.base ++ front, []⟩, links) := by
  obtain ⟨base, lost⟩ := place
  dsimp only at hhere hdir
  subst hhere
  unfold enter
  rw [descend_of_directory hdir hfront]

section

variable {d : Disk} {root name : String} {front : List String} (hroot : root ≠ "")
  (hway : AreNames (front ++ [name]))

include hroot hway

/-- The path that a walk writes is looked up from the root of the walk on. -/
theorem enter_along :
    enter d.tree linkLimit (startPlace d.cwd (along root (front ++ [name])))
        (pathNames (along root (front ++ [name]))).dropLast =
      (enter d.tree linkLimit (startPlace d.cwd root) (pathNames root)).bind fun found =>
        enter d.tree found.2 found.1 front := by
  have hstart : startPlace d.cwd (along root (front ++ [name])) = startPlace d.cwd root := by
    apply startPlace_of_front hroot
    rw [toList_along (by simp) hway, List.append_assoc]
    exact List.prefix_append _ _
  rw [hstart, pathNames_along hway, ← List.append_assoc, List.dropLast_concat, enter_append]

/-- The path of a match is looked up in the same way as the path that the walk wrote. -/
theorem enter_matchedPath :
    enter d.tree linkLimit (startPlace d.cwd (matchedPath root (front ++ [name])))
        (pathNames (matchedPath root (front ++ [name]))).dropLast =
      enter d.tree linkLimit (startPlace d.cwd (along root (front ++ [name])))
        (pathNames (along root (front ++ [name]))).dropLast := by
  by_cases hdot : root = "."
  · subst hdot
    have hanchor : pathNames "." = ["."] := by decide
    have hstart : startPlace d.cwd "." = d.cwd := rfl
    rw [enter_along hroot hway, hanchor, hstart, matchedPath_dot (by simp) hway,
      startPlace_joinedNames (by simp) hway, pathNames_joinedNames (by simp) hway, List.dropLast_concat,
      enter_dot_cons, enter_nil]
    rfl
  · rw [matchedPath, if_neg hdot]

end

/-! ## Entries where a path comes to -/

namespace Disk

variable {d : Disk} {path name : String}

theorem accepted_of_kindOf {tree : Node} (htree : tree.Accepted) {parent : Place} {kind : Kind}
    (hkind : parent.kindOf tree name = some kind) : IsAccepted name := by
  rw [Place.kindOf_eq] at hkind
  split at hkind
  · exact Node.accepted_of_kindAt htree hkind name (by simp)
  · cases hkind

section

variable (htree : d.tree.Accepted) (hpath : NamesEntry path name) (hnul : hasNul path = false)
  (hcheck : checkPath path = .ok ()) {parent : Place} {left : Nat}
  (henter : enter d.tree linkLimit (startPlace d.cwd path) (pathNames path).dropLast =
    .ok (parent, left))

include htree hpath hnul hcheck henter

/-- A path finds its entry in the directory that it comes to. -/
theorem kindOf_of_enter : d.kindOf false path = parent.kindOf d.tree name := by
  rw [kindOf_eq d hnul, locate_eq d hpath, hcheck, henter]
  simp only [Except.bind]
  cases hentry : (parent.entries d.tree).lookup name with
  | none =>
      rw [Place.kindOf, hentry]
      split <;> rfl
  | some node =>
      have hkind : parent.kindOf d.tree name = some node.kind := by
        rw [Place.kindOf, hentry, Option.map_some]
      rw [if_neg (Nat.not_lt.mpr (accepted_of_kindOf htree hkind).short), hkind]
      cases node with
      | dir es modified =>
          simp only [lastSpot, Except.toOption, Option.bind_some, spotKind, nodeAt_down hentry]
      | _ => rfl

/-- Only of a link one has to ask whether it leads to a directory. -/
theorem countsAsDir_isDirectory {kind : Kind} (hkind : parent.kindOf d.tree name = some kind) :
    kind.countsAsDir (d.isDirectory path) = d.isDirectory path := by
  have hshort := (accepted_of_kindOf htree hkind).short
  obtain ⟨node, hentry, rfl⟩ := Option.map_eq_some_iff.mp hkind
  have hfound : d.kindOf true path = some .directory ↔
      ((lastSpot true false parent name
        (fun target => behindLink d.tree true linkLimit parent false target left)
        (some node)).toOption.bind d.spotKind) = some .directory := by
    rw [kindOf_eq d hnul, locate_eq d hpath, hcheck, henter]
    simp only [Except.bind, if_neg (Nat.not_lt.mpr hshort), hentry]
  rw [← isDirectory_iff] at hfound
  cases node with
  | link target => rfl
  | dir es modified =>
      refine (hfound.mpr ?_).symm
      simp only [lastSpot, Except.toOption, Option.bind_some, spotKind, nodeAt_down hentry,
        Node.kind]
  | _ =>
      refine (Bool.eq_false_iff.mpr fun hdir => ?_).symm
      simpa [lastSpot, Except.toOption, spotKind, Node.kind] using hfound.mp hdir

end

/-! ## Entries of a walk -/

theorem hasNul_along {root : String} {way : List String} (hne : way ≠ []) (hway : AreNames way)
    (hroot : hasNul root = false) (hnul : ∀ name ∈ way, '\x00' ∉ name.toList) :
    hasNul (along root way) = false := by
  rw [hasNul_eq_false_iff] at hroot ⊢
  rw [toList_along hne hway]
  simp only [List.mem_append, not_or]
  refine ⟨⟨hroot, ?_⟩, fun hmem => ?_⟩
  · rw [separator]
    split <;> simp
  · rcases mem_joinSegments hmem with hslash | ⟨part, hpart, hchar⟩
    · exact absurd hslash (by decide)
    · obtain ⟨name, hname, rfl⟩ := List.mem_map.mp hpart
      exact hnul name hname hchar

theorem hasNul_matchedPath {root : String} {way : List String}
    (halong : hasNul (along root way) = false) : hasNul (matchedPath root way) = false := by
  rw [matchedPath]
  split
  · rw [hasNul_eq_false_iff] at halong ⊢
    rw [withoutAnchor, String.toList_ofList]
    exact fun hmem => halong (List.mem_of_mem_drop hmem)
  · exact halong

theorem enter_of_locate {root : String} {place : Place}
    (hlocate : d.locate true root = .ok (.directory place)) :
    ∃ left, enter d.tree linkLimit (startPlace d.cwd root) (pathNames root) = .ok (place, left) :=
  (locate_eq_directory_iff (locate_eq_ok_iff.mp hlocate).1).mp hlocate

/-- The directory at a place is where a search below a path starts. -/
structure StartsAt (d : Disk) (root : String) (place : Place) : Prop where
  no_nul : hasNul root = false
  found : d.locate true root = .ok (.directory place)

theorem StartsAt.unique {root : String} {place other : Place}
    (hplace : d.StartsAt root place) (hother : d.StartsAt root other) : other = place := by
  have hfound := hother.found
  rw [hplace.found, Except.ok.injEq, Spot.directory.injEq] at hfound
  exact hfound.symm

section

variable {root : String} {front : List String} {place parent : Place}
  (htree : d.tree.Accepted) (hway : AreNames (front ++ [name]))
  (hlocate : d.locate true root = .ok (.directory place))
  (hfront : ∀ left, enter d.tree left place front = .ok (parent, left))

include htree hway hlocate hfront

/-- An entry of a walk is found by the path of a match. -/
theorem kindOf_matchedPath (hnul : hasNul (matchedPath root (front ++ [name])) = false)
    (hshort : (matchedPath root (front ++ [name])).utf8ByteSize < pathLimit) :
    d.kindOf false (matchedPath root (front ++ [name])) = parent.kindOf d.tree name := by
  have hstart := ne_empty_of_locate hlocate
  have hne : matchedPath root (front ++ [name]) ≠ "" := by
    rw [matchedPath_concat hway]
    exact join_ne_empty (hway name (by simp))
  obtain ⟨left, henter⟩ := enter_of_locate hlocate
  apply kindOf_of_enter htree (namesEntry_matchedPath hway) hnul (checkPath_of_short hne hshort)
  rw [enter_matchedPath hstart hway, enter_along hstart hway, henter]
  exact hfront left

/-- The path of a match leads to a directory where the entry counts as one in the walk. -/
theorem isDirectory_matchedPath {kind : Kind} (hkind : parent.kindOf d.tree name = some kind)
    (hnul : hasNul (along root (front ++ [name])) = false)
    (hshort : (along root (front ++ [name])).utf8ByteSize < pathLimit) :
    d.isDirectory (matchedPath root (front ++ [name])) =
      kind.countsAsDir (d.isDirectory (along root (front ++ [name]))) := by
  have hstart := ne_empty_of_locate hlocate
  obtain ⟨left, henter⟩ := enter_of_locate hlocate
  have hcome : enter d.tree linkLimit (startPlace d.cwd (along root (front ++ [name])))
      (pathNames (along root (front ++ [name]))).dropLast = .ok (parent, left) := by
    rw [enter_along hstart hway, henter]
    exact hfront left
  have hne : matchedPath root (front ++ [name]) ≠ "" := by
    rw [matchedPath_concat hway]
    exact join_ne_empty (hway name (by simp))
  have hcheck := checkPath_of_short (along_ne_empty hstart hway) hshort
  have hcheck' : checkPath (matchedPath root (front ++ [name])) = .ok () := by
    rw [← anchored_matchedPath (by simp) hway] at hshort
    exact checkPath_of_short hne ((utf8ByteSize_le_anchored _ _).trans_lt hshort)
  have hsame : d.locate true (matchedPath root (front ++ [name])) =
      d.locate true (along root (front ++ [name])) := by
    rw [locate_eq d (namesEntry_matchedPath hway), locate_eq d (namesEntry_along hway),
      hcheck, hcheck', enter_matchedPath hstart hway]
  rw [countsAsDir_isDirectory htree (namesEntry_along hway) hnul hcheck hcome hkind, isDirectory,
    isDirectory, node?, node?, status, status, hnul, hasNul_matchedPath hnul, hsame]

end

/-- The path of a match finds an entry of the walk again. -/
theorem lookedUp_of_mem_trails {root : String} {place : Place} {t : Trail}
    (htree : d.tree.Accepted) (hdistinct : d.tree.Distinct) (hplace : d.StartsAt root place)
    (hlisted : t ∈ (Listed.dir (d.listing root place)).trails)
    (hshort : (anchored root (matchedPath root t.way)).utf8ByteSize < pathLimit) :
    d.entryExists (matchedPath root t.way) = true ∧
      d.isDirectory (matchedPath root t.way) = t.isDir := by
  obtain ⟨way, isDir⟩ := t
  obtain ⟨hne, hway⟩ := trails_of_listing (Node.wellNamed_of_accepted d.tree htree) root place _ hlisted
  obtain ⟨hlost, -, -, kind, hkind, hisDir⟩ := (mem_trails_listing hdistinct root place).mp hlisted
  dsimp only at hne hway hkind hisDir hshort ⊢
  have haccepted := Node.accepted_of_kindAt htree hkind
  rw [anchored_matchedPath hne hway] at hshort
  have hnul := hasNul_along hne hway hplace.no_nul
    fun name hname => (haccepted name (List.mem_append_right _ hname)).no_nul
  obtain ⟨front, name, rfl⟩ := (List.eq_nil_or_concat' way).resolve_left hne
  rw [← List.append_assoc] at hkind haccepted
  have hdir : d.tree.kindAt (place.base ++ front) = some .directory :=
    kindAt_directory_of_nonempty hkind
  have hfront : ∀ left, enter d.tree left place front = .ok (⟨place.base ++ front, []⟩, left) :=
    fun left => enter_of_directory hlost hdir fun n hn => haccepted n (by simp [hn])
  have hentry : (⟨place.base ++ front, []⟩ : Place).kindOf d.tree name = some kind := by
    rw [Place.kindOf_eq, if_pos rfl]
    exact hkind
  have hmatched : (matchedPath root (front ++ [name])).utf8ByteSize < pathLimit := by
    rw [← anchored_matchedPath hne hway] at hshort
    exact (utf8ByteSize_le_anchored _ _).trans_lt hshort
  constructor
  · rw [entryExists_eq, kindOf_matchedPath htree hway hplace.found hfront
      (hasNul_matchedPath hnul) hmatched, hentry]
    rfl
  · rw [isDirectory_matchedPath htree hway hplace.found hfront hentry hnul hshort, hisDir]

end Disk

end BuildRunner
