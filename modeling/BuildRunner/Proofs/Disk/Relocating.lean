import BuildRunner.Proofs.Disk.Placing
import BuildRunner.Proofs.Disk.Sinking

/-!
# Entries that change their place

An entry that is renamed is found at the new place with all that it holds, and nothing is left at the
old one.  A tree that is removed takes nothing with it but what stands below its path.
-/

namespace BuildRunner

namespace Node

variable {tree node : Node} {parent location : Location} {name : String}

theorem ownAt_eq_none_of_kindAt (hnone : tree.kindAt location = none) :
    tree.ownAt location = none := by
  rwa [kindAt_eq_ownAt, Option.map_eq_none_iff] at hnone

/-- An entry that is put into a directory is found there with all that it holds. -/
theorem get?_put_inside (hparent : tree.kindAt parent = some .directory) (rest : Location) :
    (tree.put parent name node).get? (parent ++ name :: rest) = node.get? rest := by
  obtain ⟨found, hfound, hdirectory⟩ := Option.map_eq_some_iff.mp hparent
  rw [put, get?_modify_append, hfound, Option.bind_some]
  cases found with
  | dir es modified =>
      rw [mapEntries, get?, entries, lookup_putEntry, if_pos rfl]
      rfl
  | _ => cases hdirectory

end Node

namespace Disk

variable {d d' : Disk} {source target : String}

/-! ## Renaming -/

/-- What is at and below a location before is at and below another one afterwards, and nothing is
left where it was. -/
structure Relocates (old new : Location) (d d' : Disk) : Prop where
  apart : Location.Apart new old
  arrived : ∀ rest, d'.tree.ownAt (new ++ rest) = d.tree.ownAt (old ++ rest)
  gone : ∀ rest, d'.tree.ownAt (old ++ rest) = none

/-- An entry is put in the place of what is there. -/
def replace (d : Disk) (old : Location) (q : Place) (b : String) (node : Node) :
    Option Node → Except Errno Disk
  | none => .ok (d.relocate old (q.base ++ [b]) node)
  | some (.dir es _) =>
    if !node.isDir then .error .isDirectory
    else if !es.isEmpty then .error .directoryNotEmpty
    else
      .ok ((({ d with tree := d.tree.drop q.base b } : Disk).mapReferences
        (Place.afterRemoval (q.base ++ [b])) id).relocate old (q.base ++ [b]) node)
  | some _ =>
    if node.isDir then .error .notDirectory
    else
      .ok ((({ d with tree := d.tree.drop q.base b } : Disk).mapReferences id
        (OpenFile.afterRemoval (q.base ++ [b]))).relocate old (q.base ++ [b]) node)

/-- An entry is renamed, once it is known in which directories and what is there. -/
def renameEntry (d : Disk) (p : Place) (a : String) (q : Place) (b : String) (slash : Bool)
    (node : Node) (there : Option Node) : Except Errno Disk :=
  if !node.isDir && slash then .error .notDirectory
  else if q.lost.isEmpty && (p.base ++ [a]).isPrefixOf q.base then .error .invalidArgument
  else if p.lost.isEmpty && q.lost.isEmpty && (q.base ++ [b]).isPrefixOf p.base then
    .error .directoryNotEmpty
  else if !q.lost.isEmpty then .error .notFound
  else if p.base ++ [a] = q.base ++ [b] then .ok d
  else d.replace (p.base ++ [a]) q b node there

theorem rename_of_tips {p q : Place} {a b : String} {slashA slashB : Bool} {node : Node}
    {there : Option Node} (htip : d.tip source = .ok (p, .name a slashA))
    (htip' : d.tip target = .ok (q, .name b slashB)) (hentry : d.entryAt p a = .ok (some node))
    (hthere : d.entryAt q b = .ok there) :
    d.rename source target = d.renameEntry p a q b (slashA || slashB) node there := by
  unfold rename
  simp only [htip, htip', hentry, hthere, bind, Except.bind]
  rfl

theorem tree_relocate (t : Disk) (p q : Place) (a b : String) (node : Node) :
    (t.relocate (p.base ++ [a]) (q.base ++ [b]) node).tree =
      (t.tree.drop p.base a).put q.base b node := by
  simp [relocate, mapReferences]

theorem replace_inv {p q : Place} {a b : String} {node : Node} {there : Option Node}
    (hreplace : d.replace (p.base ++ [a]) q b node there = .ok d') :
    ∃ tree, (tree = d.tree ∨ tree = d.tree.drop q.base b) ∧
      d'.tree = (tree.drop p.base a).put q.base b node := by
  rcases there with _ | other
  · cases hreplace
    exact ⟨d.tree, Or.inl rfl, tree_relocate _ _ _ _ _ _⟩
  · refine ⟨d.tree.drop q.base b, Or.inr rfl, ?_⟩
    cases other with
    | dir es modified =>
        simp only [replace] at hreplace
        split_ifs at hreplace
        cases hreplace
        exact tree_relocate _ _ _ _ _ _
    | _ =>
        simp only [replace] at hreplace
        split at hreplace
        · cases hreplace
        · cases hreplace
          exact tree_relocate _ _ _ _ _ _

theorem isDir_of_renameEntry {p q : Place} {a b : String} {slash : Bool} {node : Node}
    {there : Option Node} (hrename : d.renameEntry p a q b slash node there = .ok d')
    (hslash : slash = true) : node.isDir = true := by
  by_contra hleaf
  rw [Bool.not_eq_true] at hleaf
  rw [renameEntry, hslash, hleaf, if_pos (by decide)] at hrename
  cases hrename

/-- A renamed entry stays where it is if the two paths name one entry, and is relocated otherwise. -/
theorem relocates_of_renameEntry {p q : Place} {a b : String} {slash : Bool} {node : Node}
    {there : Option Node} (hparent : d.tree.kindAt q.base = some .directory) (hhere : p.lost = [])
    (hnode : d.tree.get? (p.base ++ [a]) = some node)
    (hrename : d.renameEntry p a q b slash node there = .ok d') :
    q.lost = [] ∧ ((p.base ++ [a] = q.base ++ [b] ∧ d' = d) ∨
      d.Relocates (p.base ++ [a]) (q.base ++ [b]) d') := by
  unfold renameEntry at hrename
  rw [hhere] at hrename
  split_ifs at hrename with hslash hinside habove hgone hsame
  · cases hrename
    exact ⟨by simpa using hgone, Or.inl ⟨hsame, rfl⟩⟩
  · have hthere : q.lost = [] := by simpa using hgone
    rw [hthere] at hinside habove
    simp only [List.isEmpty_nil, Bool.true_and, List.isPrefixOf_iff_prefix] at hinside habove
    refine ⟨hthere, Or.inr ?_⟩
    have hapart : Location.Apart (q.base ++ [b]) (p.base ++ [a]) := by
      constructor
      · rw [List.prefix_concat_iff]
        exact fun h => h.elim (fun heq => hsame heq.symm) habove
      · rw [List.prefix_concat_iff]
        exact fun h => h.elim hsame hinside
    obtain ⟨tree, htree, hafter⟩ := replace_inv hrename
    have hdirectory : (tree.drop p.base a).kindAt q.base = some .directory := by
      rw [Node.kindAt_drop, if_neg hinside]
      rcases htree with rfl | rfl
      · exact hparent
      · rw [Node.kindAt_drop, if_neg fun h => by simpa using h.length_le, hparent]
    refine ⟨hapart, fun rest => ?_, fun rest => ?_⟩
    · rw [hafter, Node.ownAt, List.append_assoc, List.singleton_append,
        Node.get?_put_inside hdirectory, Node.ownAt, Node.get?_append, hnode, Option.bind_some]
    · have hspared : ¬q.base ++ [b] <+: p.base ++ [a] ++ rest := by
        have hbelow := (hapart.append [] rest).not_above
        rwa [List.append_nil] at hbelow
      rw [hafter, Node.ownAt_put_apart _ _ hspared]
      apply Node.ownAt_eq_none_of_kindAt
      rw [Node.kindAt_drop, if_pos (List.prefix_append _ _)]

/-! ## Entries by their paths -/

/-- What a look-up ends at as at a leaf has no slash behind it. -/
theorem no_slash_of_leaf {tree : Node} {follow slash : Bool} {fuel links : Nat} {place parent : Place}
    {names : List String} {name : String} {node : Node}
    (hfound : locateFrom tree follow fuel links place names slash =
      .ok (.leaf parent name node)) : slash = false := by
  induction fuel generalizing links place names slash with
  | zero => simp [locateFrom] at hfound
  | succ fuel ih =>
      rw [locateFrom_succ] at hfound
      cases henter : enter tree links place names.dropLast with
      | error code => simp [henter, Except.bind] at hfound
      | ok found =>
          rw [henter] at hfound
          simp only [Except.bind] at hfound
          cases slash with
          | false => rfl
          | true =>
              cases hlast : names.getLast? with
              | none => simp [hlast] at hfound
              | some last =>
                  simp only [hlast] at hfound
                  split_ifs at hfound
                  · simp at hfound
                  · simp at hfound
                  · rcases hentry : (found.1.entries tree).lookup last with
                      _ | (_ | _ | target | _ | _)
                    case some.link =>
                        rw [hentry] at hfound
                        simp only [lastSpot, Bool.or_true, if_true] at hfound
                        cases hleft : found.2 with
                        | zero => simp [behindLink, hleft] at hfound
                        | succ left =>
                            rw [hleft] at hfound
                            have hnever := ih hfound
                            simp at hnever
                    all_goals simp [hentry, lastSpot] at hfound

/-- What leads to something other than a directory ends in a name. -/
theorem namesEntry_of_leaf {follow : Bool} {parent : Place} {name : String} {node : Node}
    (hleaf : d.locate follow path = .ok (.leaf parent name node)) :
    ∃ last, NamesEntry path last := by
  obtain ⟨-, hfound⟩ := locate_eq_ok_iff.mp hleaf
  have hslash := no_slash_of_leaf hfound
  rw [locateFrom_succ] at hfound
  cases henter : enter d.tree linkLimit (startPlace d.cwd path) (pathNames path).dropLast with
  | error code => simp [henter, Except.bind] at hfound
  | ok found =>
      simp only [henter, Except.bind] at hfound
      cases hlast : (pathNames path).getLast? with
      | none => simp [hlast] at hfound
      | some last =>
          rw [hlast] at hfound
          dsimp only at hfound
          by_cases hdot : last = "."
          · simp [hdot] at hfound
          by_cases hdotdot : last = ".."
          · simp [hdotdot] at hfound
          exact ⟨last, hlast, hdot, hdotdot, hslash⟩

theorem exists_leaf_of_isFile (hcwd : d.tree.kindAt d.cwd.base = some .directory)
    (hfile : d.isFile path = true) :
    ∃ parent name node, d.locate true path = .ok (.leaf parent name node) ∧ node.kind = .file := by
  have hkind := (isFile_iff d path).mp hfile
  rw [kindOf_eq d (hasNul_of_isFile hfile)] at hkind
  cases hlocate : d.locate true path with
  | error code => simp [hlocate, Except.toOption] at hkind
  | ok spot =>
      cases spot with
      | directory place =>
          have hthere := kindAt_of_locate hcwd hlocate
          simp only [hlocate, Except.toOption, Option.bind_some, spotKind, kind_nodeAt,
            hthere] at hkind
          split at hkind <;> cases hkind
      | vacant parent name => simp [hlocate, Except.toOption, spotKind] at hkind
      | leaf parent name node =>
          simp only [hlocate, Except.toOption, Option.bind_some, spotKind,
            Option.some.injEq] at hkind
          exact ⟨parent, name, node, rfl, hkind⟩

/-- What a path leads to as to a leaf is the entry at the tip of the path. -/
theorem tip_of_leaf {path name : String} {parent : Place} {node : Node}
    (hleaf : d.locate false path = .ok (.leaf parent name node)) :
    d.tip path = .ok (parent, .name name false) ∧ d.entryAt parent name = .ok (some node) := by
  have hlookup := lookup_of_locate hleaf
  obtain ⟨last, hpath⟩ := namesEntry_of_leaf hleaf
  rcases d.tip_cases hpath with ⟨code, -, hfailed⟩ | ⟨above, links, htip, hlocate⟩
  · rw [hfailed] at hleaf
    cases hleaf
  · rw [hlocate] at hleaf
    split_ifs at hleaf with hlong
    have hsame : above = parent ∧ last = name := by
      rcases hentry : (above.entries d.tree).lookup last with _ | (_ | _ | _ | _ | _)
      all_goals rw [hentry] at hleaf
      all_goals simp [lastSpot] at hleaf
      all_goals exact ⟨hleaf.1, hleaf.2.1⟩
    obtain ⟨rfl, rfl⟩ := hsame
    exact ⟨htip, by rw [entryAt, if_neg hlong, hlookup]⟩

/-- The entry at the tip of a path is what the path leads to. -/
theorem status_of_tip {path name : String} {parent : Place} {slash : Bool} {node : Node}
    (htip : d.tip path = .ok (parent, .name name slash))
    (hentry : d.entryAt parent name = .ok (some node))
    (hslash : slash = true → node.isDir = true) :
    d.status false path = .ok (parent.down name, node) := by
  obtain ⟨hcheck, hlast, left, henter⟩ := tip_eq_ok_iff.mp htip
  obtain ⟨hname, hdot, hdotdot, hends⟩ := lastTip_eq_name_iff.mp hlast
  obtain ⟨hshort, hlookup⟩ := lookup_of_entryAt hentry
  have hlocate : d.locate false path = lastSpot false slash parent name
      (fun target => behindLink d.tree false linkLimit parent slash target left) (some node) := by
    unfold locate BuildRunner.locate
    rw [hcheck, hends]
    change locateFrom _ _ _ _ _ _ _ = _
    rw [locateFrom_succ, henter]
    simp only [Except.bind, hname, if_neg hdot, if_neg hdotdot, if_neg (Nat.not_lt.mpr hshort),
      hlookup]
  rw [status, hlocate]
  cases node with
  | dir es modified =>
      exact congrArg (fun node => Except.ok (parent.down name, node)) (nodeAt_down hlookup)
  | _ =>
      cases slash with
      | true => cases hslash rfl
      | false => rfl

/-- At the tip of a path that enters a directory is this directory, or a link. -/
theorem Enters.tip_cases {path name : String} {base : Location} {parent : Place} {slash : Bool}
    (henters : d.Enters path base) (htip : d.tip path = .ok (parent, .name name slash)) :
    (parent.kindOf d.tree name = some .directory ∧ base = parent.base ++ [name]) ∨
      ∃ target, parent.kindOf d.tree name = some (.link target) := by
  obtain ⟨-, hlast, left, henter⟩ := tip_eq_ok_iff.mp htip
  obtain ⟨hname, hdot, hdotdot, -⟩ := lastTip_eq_name_iff.mp hlast
  obtain ⟨left', hway⟩ := henters.way
  rw [← List.dropLast_append_getLast? name hname, enter_append, henter] at hway
  simp only [Except.bind, enter_singleton, if_neg hdot, if_neg hdotdot] at hway
  split at hway
  · cases hway
  · cases hkind : parent.kindOf d.tree name with
    | none =>
        rw [hkind] at hway
        cases hway
    | some kind =>
        rw [hkind] at hway
        cases kind with
        | directory =>
            obtain ⟨hplace, -⟩ := Prod.mk.inj (Except.ok.inj hway)
            exact Or.inl ⟨rfl, (congrArg Place.base hplace).symm⟩
        | link target => exact Or.inr ⟨target, rfl⟩
        | _ => cases hway

/-! ## Renaming by paths -/

/-- An entry that is renamed is at the tip of its path, and so is the place that it is renamed to. -/
theorem rename_cases (hrename : d.rename source target = .ok d') :
    ∃ p a slashA q b slashB node there, d.tip source = .ok (p, .name a slashA) ∧
      d.tip target = .ok (q, .name b slashB) ∧ d.entryAt p a = .ok (some node) ∧
        d.entryAt q b = .ok there ∧
          d.renameEntry p a q b (slashA || slashB) node there = .ok d' := by
  have hwhole := hrename
  unfold rename at hrename
  cases htip : d.tip source with
  | error code => simp [htip, bind, Except.bind] at hrename
  | ok found =>
      cases htip' : d.tip target with
      | error code => simp [htip, htip', bind, Except.bind] at hrename
      | ok found' =>
          obtain ⟨p, tip⟩ := found
          obtain ⟨q, tip'⟩ := found'
          rw [htip, htip'] at hrename
          cases tip <;> cases tip' <;> simp only [bind, Except.bind, reduceCtorEq] at hrename
          next a slashA b slashB =>
            cases hentry : d.entryAt p a with
            | error code => simp [hentry] at hrename
            | ok entry =>
                cases entry with
                | none => simp [hentry] at hrename
                | some node =>
                    cases hthere : d.entryAt q b with
                    | error code => simp [hentry, hthere] at hrename
                    | ok there =>
                        exact ⟨p, a, slashA, q, b, slashB, node, there, rfl, rfl, hentry, hthere,
                          rename_of_tips htip htip' hentry hthere ▸ hwhole⟩

/-- An entry that is renamed to another place is relocated there. -/
theorem relocates_of_rename {location : Location} {node : Node}
    (hcwd : d.tree.kindAt d.cwd.base = some .directory)
    (hsource : d.status false source = .ok (⟨location, []⟩, node))
    (hrename : d.rename source target = .ok d') :
    (location = d.aim target ∧ d' = d) ∨ d.Relocates location (d.aim target) d' := by
  obtain ⟨p, a, slashA, q, b, slashB, entry, there, htip, htip', hentry, -, hentries⟩ :=
    rename_cases hrename
  obtain ⟨hhere, hnode⟩ := get?_of_lookup (lookup_of_entryAt hentry).2
  have hstatus := status_of_tip htip hentry fun h => isDir_of_renameEntry hentries (by rw [h]; rfl)
  rw [hsource] at hstatus
  obtain ⟨hplace, -⟩ := Prod.mk.inj (Except.ok.inj hstatus)
  obtain rfl : location = p.base ++ [a] := congrArg Place.base hplace
  rw [aim_of_tip htip']
  exact (relocates_of_renameEntry (kindAt_of_tip hcwd htip') hhere hnode hentries).2

/-- A directory that is renamed to a path that leads to it stays where it is. -/
theorem rename_onto_self {location : Location} {node : Node}
    (hcwd : d.tree.kindAt d.cwd.base = some .directory)
    (hsource : d.status false source = .ok (⟨location, []⟩, node)) (hdir : node.isDir = true)
    (htarget : d.Enters target location) (hrename : d.rename source target = .ok d') : d' = d := by
  have hplaces := relocates_of_rename hcwd hsource hrename
  obtain ⟨p, a, slashA, q, b, slashB, entry, there, htip, htip', hentry, hthere, hentries⟩ :=
    rename_cases hrename
  have hstatus := status_of_tip htip hentry fun h => isDir_of_renameEntry hentries (by rw [h]; rfl)
  rw [hsource] at hstatus
  obtain ⟨-, rfl⟩ := Prod.mk.inj (Except.ok.inj hstatus)
  rw [aim_of_tip htip'] at hplaces
  rcases htarget.tip_cases htip' with ⟨-, rfl⟩ | ⟨linked, hlink⟩
  · rcases hplaces with ⟨-, hsame⟩ | hrelocates
    · exact hsame
    · exact absurd (List.prefix_refl _) hrelocates.apart.not_above
  · rw [Place.kindOf, (lookup_of_entryAt hthere).2] at hlink
    obtain ⟨other, rfl, hkind⟩ := Option.map_eq_some_iff.mp hlink
    cases other with
    | link linked =>
        unfold renameEntry at hentries
        simp only [replace, hdir] at hentries
        split_ifs at hentries
        cases hentries
        rfl
    | _ => cases hkind

/-- A leaf can be renamed to any name that is not that of a directory. -/
theorem exists_rename_of_leaf {p q : Place} {a b : String} {node : Node}
    (hcwd : d.tree.kindAt d.cwd.base = some .directory)
    (htip : d.tip source = .ok (p, .name a false)) (hentry : d.entryAt p a = .ok (some node))
    (hleaf : node.kind ≠ .directory) (htip' : d.tip target = .ok (q, .name b false))
    (hthere : q.lost = []) (hshort : b.utf8ByteSize ≤ greatestName)
    (hfree : d.tree.kindAt (q.base ++ [b]) ≠ some .directory) :
    ∃ d', d.rename source target = .ok d' := by
  obtain ⟨hhere, hnode⟩ := kindAt_of_lookup_some (lookup_of_entryAt hentry).2
  have hfile : node.isDir = false := by
    cases node with
    | dir es modified => exact absurd rfl hleaf
    | _ => rfl
  -- neither of the two entries is a directory that the other one could be in
  have hnever : ∀ {location base : Location}, d.tree.kindAt location ≠ some .directory →
      d.tree.kindAt base = some .directory → ¬location <+: base := by
    rintro location base hother hbase ⟨rest, rfl⟩
    exact hother <| kindAt_directory_of_prefix hbase
  have hinside : ¬p.base ++ [a] <+: q.base :=
    hnever (by simpa [hnode] using hleaf) (kindAt_of_tip hcwd htip')
  have habove : ¬q.base ++ [b] <+: p.base := hnever hfree (kindAt_of_tip hcwd htip)
  have hentry' : d.entryAt q b = .ok (d.tree.get? (q.base ++ [b])) := by
    rw [entryAt, if_neg (Nat.not_lt.mpr hshort), Place.lookup_entries d.tree hthere]
  rw [rename_of_tips htip htip' hentry hentry', renameEntry]
  simp only [hfile, hthere, hhere, List.isEmpty_nil, Bool.not_false, Bool.or_self, Bool.and_false,
    Bool.true_and, List.isPrefixOf_iff_prefix, hinside, habove, Bool.false_eq_true, Bool.not_true,
    if_false]
  split
  · exact ⟨_, rfl⟩
  · cases hfound : d.tree.get? (q.base ++ [b]) with
    | none => exact ⟨_, rfl⟩
    | some other =>
        rw [Node.kindAt, hfound] at hfree
        cases other with
        | dir es modified => exact absurd rfl hfree
        | _ =>
            simp only [replace, hfile, Bool.false_eq_true, if_false]
            exact ⟨_, rfl⟩

/-- Where a link can be made, a leaf can be renamed to. -/
theorem exists_rename_of_makeLink {p : Place} {a linked : String} {node : Node}
    (hcwd : d.tree.kindAt d.cwd.base = some .directory)
    (hsource : d.locate false source = .ok (.leaf p a node))
    (hmake : d.makeLink linked target = .ok d') : ∃ t, d.rename source target = .ok t := by
  obtain ⟨htip, hentry⟩ := tip_of_leaf hsource
  obtain ⟨q, b, htip', hthere, hshort, hvacant, -⟩ := makeLink_inv hmake
  exact exists_rename_of_leaf hcwd htip hentry (kind_ne_directory_of_leaf hsource) htip' hthere
    hshort (by simp [hvacant])

/-- Where bytes can be stored, a leaf can be renamed to. -/
theorem exists_rename_of_store {p : Place} {a : String} {node : Node} {data : Text.Bytes}
    (hcwd : d.tree.kindAt d.cwd.base = some .directory)
    (hsource : d.locate false source = .ok (.leaf p a node))
    (hstore : d.store data target = .ok d') : ∃ t, d.rename source target = .ok t := by
  obtain ⟨htip, hentry⟩ := tip_of_leaf hsource
  obtain ⟨place, last, hwritable, hlost, -⟩ := store_inv hstore
  obtain ⟨b, hpath⟩ := namesEntry_of_writable hwritable
  obtain ⟨q, htip', hshort, hfree, hend⟩ := tip_of_writable hpath hwritable
  have hthere : q.lost = [] := by
    rcases hend with ⟨linked, hlink⟩ | ⟨rfl, -⟩
    · exact (get?_of_lookup hlink).1
    · exact hlost
  rw [Place.kindOf_eq, if_pos hthere] at hfree
  exact exists_rename_of_leaf hcwd htip hentry (kind_ne_directory_of_leaf hsource) htip' hthere
    hshort hfree

end Disk

/-! ## Removing trees -/

section

variable {d d' : Disk} {source : String} {origin : Location}

/-- What removes the directory that a path enters is gone where the path led to. -/
theorem Disk.Enters.eq_of_removeDirectory {cleared : Disk} (henters : d.Enters source origin)
    (hrecedes : d.Recedes cleared) (hremove : cleared.removeDirectory source = .ok d') :
    ∃ parent name, origin = parent ++ [name] ∧ d'.tree = cleared.tree.drop parent name := by
  obtain ⟨place', name, slash, htip', hkind, htree, -, -⟩ := Disk.removeDirectory_inv hremove
  obtain ⟨place, htip, hsinks⟩ := hrecedes.tip htip'
  obtain rfl := hsinks.eq_of_here (Place.lost_eq_nil_of_kindOf hkind)
  have hbefore : place.kindOf d.tree name = some .directory := by
    rcases Place.kindOf_of_prunes hrecedes.tree place name with hnone | hsame
    · simp [hnone] at hkind
    · rw [← hsame, hkind]
  rcases henters.tip_cases htip with ⟨-, hplace⟩ | ⟨target, hlink⟩
  · exact ⟨place.base, name, hplace, htree⟩
  · simp [hbefore] at hlink

/-- Removing the tree that a path enters leaves alone what is neither there nor below, and nothing is
left there if it succeeds. -/
theorem removed_of_removeTree {result : Except Failure Unit} (henters : d.Enters source origin)
    (hnul : Disk.hasNul source = false)
    (hrun : (DiskM.removeTree source).run d = (result, d')) :
    (∀ location, ¬origin <+: location → d'.tree.ownAt location = d.tree.ownAt location) ∧
      (result = .ok () → ∀ rest, d'.tree.ownAt (origin ++ rest) = none) := by
  have hunchanged : ∀ {failure : Failure}, result = .error failure → d' = d →
      (∀ location, ¬origin <+: location → d'.tree.ownAt location = d.tree.ownAt location) ∧
        (result = .ok () → ∀ rest, d'.tree.ownAt (origin ++ rest) = none) := by
    rintro failure rfl rfl
    refine ⟨fun _ _ => rfl, ?_⟩
    rintro ⟨⟩
  rw [run_removeTree hnul] at hrun
  cases hstatus : d.status false source with
  | error code =>
      rw [hstatus] at hrun
      cases hrun
      exact hunchanged rfl rfl
  | ok found =>
      obtain ⟨place, node⟩ := found
      rw [hstatus] at hrun
      dsimp only at hrun
      split at hrun
      · next hdir =>
          have hlink : ∀ target, node ≠ .link target := by
            rintro target rfl
            cases hdir
          obtain ⟨rfl, -⟩ := henters.place_eq (Disk.status_follow hstatus hlink)
          change (DiskM.change source fun d => d.removeDirectory source).run (d.clear origin) =
            (result, d') at hrun
          have hcleared : ∀ location, ¬origin <+: location →
              (d.clear origin).tree.ownAt location = d.tree.ownAt location :=
            fun location hspared => Node.ownAt_clear d.tree hspared
          rw [run_change, hnul, if_neg (by decide)] at hrun
          cases hremove : (d.clear origin).removeDirectory source with
          | error code =>
              rw [hremove] at hrun
              cases hrun
              refine ⟨hcleared, ?_⟩
              rintro ⟨⟩
          | ok removed =>
              rw [hremove] at hrun
              cases hrun
              obtain ⟨parent, name, rfl, htree⟩ :=
                henters.eq_of_removeDirectory (Disk.recedes_clear d origin) hremove
              rw [htree]
              refine ⟨fun location hspared => ?_, fun _ rest => ?_⟩
              · rw [Node.ownAt_drop _ hspared, hcleared location hspared]
              · apply Node.ownAt_eq_none_of_kindAt
                rw [Node.kindAt_drop, if_pos (List.prefix_append _ _)]
      · cases hrun
        exact hunchanged rfl rfl

end

end BuildRunner
