import BuildRunner.Disk.Copy
import BuildRunner.Proofs.Disk.Joining
import BuildRunner.Proofs.Disk.Status

/-!
# Disks that grow

Making directories and copying put new entries where nothing was, and change the bytes and the status
of entries that are there.  No entry is gone afterwards, none is of another kind, and the current
directory is the same.  What each request does is said by one inversion lemma for it.
-/

namespace BuildRunner

open BuildRunner.Text (Bytes)

namespace Node

/-- All entries are still there, and of the same kind. -/
def KeepsKinds (tree tree' : Node) : Prop :=
  ∀ location kind, tree.kindAt location = some kind → tree'.kindAt location = some kind

theorem KeepsKinds.refl (tree : Node) : tree.KeepsKinds tree := fun _ _ h => h

theorem KeepsKinds.trans {t u v : Node} (h : t.KeepsKinds u) (h' : u.KeepsKinds v) :
    t.KeepsKinds v := fun location kind hkind => h' location kind (h location kind hkind)

theorem KeepsKinds.keepsWays {tree tree' : Node} (hkeeps : tree.KeepsKinds tree') :
    tree.KeepsWays tree' := fun location kind _ hkind => hkeeps location kind hkind

theorem keepsKinds_put {tree : Node} {parent : Location} {name : String} {node : Node}
    (hnode : node.entries = []) (hfree : tree.kindAt (parent ++ [name]) = none) :
    tree.KeepsKinds (tree.put parent name node) := by
  intro location kind hkind
  rw [kindAt_put tree parent name hnode hfree, if_neg]
  · exact hkind
  · rintro ⟨rfl, -⟩
    simp [hfree] at hkind

theorem keepsKinds_modify {f : Node → Node} (hkind : ∀ node, (f node).kind = node.kind)
    (hentries : ∀ node, (f node).entries = node.entries) (location : Location) (tree : Node) :
    tree.KeepsKinds (tree.modify f location) := by
  intro other kind hother
  rw [kindAt_modify hkind hentries]
  exact hother

theorem kind_withData (data : Bytes) (node : Node) : (node.withData data).kind = node.kind := by
  cases node <;> rfl

theorem entries_withData (data : Bytes) (node : Node) :
    (node.withData data).entries = node.entries := by
  cases node <;> rfl

theorem kind_withStatus (source node : Node) : (withStatus source node).kind = node.kind := by
  cases node <;> rfl

theorem entries_withStatus (source node : Node) :
    (withStatus source node).entries = node.entries := by
  cases node <;> rfl

end Node

namespace Disk

variable {d d' : Disk} {path : String}

/-! ## Requests -/

theorem lookup_of_entryAt {parent : Place} {name : String} {entry : Option Node}
    (hentry : d.entryAt parent name = .ok entry) :
    name.utf8ByteSize ≤ greatestName ∧ (parent.entries d.tree).lookup name = entry := by
  unfold entryAt at hentry
  split at hentry
  · cases hentry
  · next hlong => exact ⟨Nat.not_lt.mp hlong, Except.ok.inj hentry⟩

theorem makeDirectory_inv (hmake : d.makeDirectory path = .ok d') :
    ∃ parent name slash, d.tip path = .ok (parent, .name name slash) ∧ parent.lost = [] ∧
      name.utf8ByteSize ≤ greatestName ∧ d.tree.kindAt (parent.base ++ [name]) = none ∧
        d' = { d with tree := d.tree.put parent.base name .empty } := by
  unfold makeDirectory at hmake
  cases htip : d.tip path with
  | error code => simp [htip, bind, Except.bind] at hmake
  | ok found =>
      obtain ⟨parent, last⟩ := found
      rw [htip] at hmake
      cases last with
      | name name slash =>
          simp only [bind, Except.bind] at hmake
          cases hentry : d.entryAt parent name with
          | error code => simp [hentry] at hmake
          | ok found =>
              cases found with
              | some node => simp [hentry] at hmake
              | none =>
                  simp only [hentry] at hmake
                  obtain ⟨hshort, hvacant⟩ := lookup_of_entryAt hentry
                  obtain ⟨hlost, hd'⟩ := create_inv hmake
                  exact ⟨parent, name, slash, rfl, hlost, hshort,
                    kindAt_of_lookup_none hlost hvacant, hd'⟩
      | _ => simp [bind, Except.bind] at hmake

theorem makeSpecial_inv {node : Node} (hmake : d.makeSpecial node path = .ok d') :
    ∃ parent name, d.tip path = .ok (parent, .name name false) ∧ parent.lost = [] ∧
      name.utf8ByteSize ≤ greatestName ∧ d.tree.kindAt (parent.base ++ [name]) = none ∧
        d' = { d with tree := d.tree.put parent.base name node } := by
  unfold makeSpecial at hmake
  cases htip : d.tip path with
  | error code => simp [htip, bind, Except.bind] at hmake
  | ok found =>
      obtain ⟨parent, last⟩ := found
      rw [htip] at hmake
      cases last with
      | name name slash =>
          simp only [bind, Except.bind] at hmake
          cases hentry : d.entryAt parent name with
          | error code => simp [hentry] at hmake
          | ok found =>
              cases found with
              | some node => simp [hentry] at hmake
              | none =>
                  cases slash with
                  | true => simp [hentry] at hmake
                  | false =>
                      simp only [hentry, Bool.false_eq_true, if_false] at hmake
                      obtain ⟨hshort, hvacant⟩ := lookup_of_entryAt hentry
                      obtain ⟨hlost, hd'⟩ := create_inv hmake
                      exact ⟨parent, name, rfl, hlost, hshort,
                        kindAt_of_lookup_none hlost hvacant, hd'⟩
      | _ => simp [bind, Except.bind] at hmake

theorem makeLink_inv {target : String} (hmake : d.makeLink target path = .ok d') :
    ∃ parent name, d.tip path = .ok (parent, .name name false) ∧ parent.lost = [] ∧
      name.utf8ByteSize ≤ greatestName ∧ d.tree.kindAt (parent.base ++ [name]) = none ∧
        d' = { d with tree := d.tree.put parent.base name (.link target) } := by
  unfold makeLink at hmake
  split at hmake
  · cases hmake
  · exact makeSpecial_inv hmake

/-- A file is made where nothing was, or the bytes of an entry are replaced. -/
theorem store_inv {data : Bytes} (hstore : d.store data path = .ok d') :
    ∃ parent name, writable d.tree d.cwd path = .ok (parent, name) ∧ parent.lost = [] ∧
      ((d.tree.kindAt (parent.base ++ [name]) = none ∧
          d' = { d with tree := d.tree.put parent.base name (.file data false none) }) ∨
        ((∃ node, d.tree.get? (parent.base ++ [name]) = some node) ∧
          d' = { d with tree := d.tree.modify (Node.withData data) (parent.base ++ [name]) })) := by
  unfold store at hstore
  cases hwritable : writable d.tree d.cwd path with
  | error code => simp [hwritable, bind, Except.bind] at hstore
  | ok found =>
      obtain ⟨parent, name⟩ := found
      simp only [hwritable, bind, Except.bind] at hstore
      cases hentry : (parent.entries d.tree).lookup name with
      | none =>
          simp only [hentry] at hstore
          obtain ⟨hlost, hd'⟩ := create_inv hstore
          exact ⟨parent, name, rfl, hlost, Or.inl ⟨kindAt_of_lookup_none hlost hentry, hd'⟩⟩
      | some node =>
          simp only [hentry, Except.ok.injEq] at hstore
          obtain ⟨hlost, hnode⟩ := get?_of_lookup hentry
          exact ⟨parent, name, rfl, hlost, Or.inr ⟨⟨node, hnode⟩, hstore.symm⟩⟩

/-- The status is set of an entry of the tree; that of a directory that is gone is not kept. -/
theorem copyStatus_inv {source : Node} (hcopy : d.copyStatus source path = .ok d') :
    ∃ place node, d.status true path = .ok (place, node) ∧
      d' = if place.lost = [] then
          { d with tree := d.tree.modify (Node.withStatus source) place.base } else d := by
  unfold copyStatus at hcopy
  cases hstatus : d.status true path with
  | error code => simp [hstatus, bind, Except.bind] at hcopy
  | ok found =>
      obtain ⟨place, node⟩ := found
      refine ⟨place, node, rfl, ?_⟩
      simp only [hstatus, bind, Except.bind] at hcopy
      split at hcopy
      · next hlost =>
          rw [if_pos (by simpa using hlost)]
          exact (Except.ok.inj hcopy).symm
      · next hlost =>
          rw [if_neg (by simpa using hlost)]
          exact (Except.ok.inj hcopy).symm

end Disk

/-! ## Trees with proper names -/

namespace Node

/-- The names in a directory, in their order. -/
def names (node : Node) : List String := node.entries.map Prod.fst

/-- All names are ones that the system accepts, no directory has two entries of one name, and the
targets of links are free of NUL. -/
structure Proper (tree : Node) : Prop where
  accepted : ∀ location kind, tree.kindAt location = some kind → ∀ name ∈ location, IsAccepted name
  distinct : ∀ location node, tree.get? location = some node → node.names.Nodup
  targets : ∀ location target, tree.kindAt location = some (.link target) →
    Disk.hasNul target = false

theorem proper_empty : empty.Proper where
  accepted location kind hkind := by
    cases location with
    | nil => simp
    | cons name rest => cases hkind
  distinct location node hnode := by
    cases location with
    | nil =>
        cases hnode
        exact List.nodup_nil
    | cons name rest => cases hnode
  targets location target htarget := by
    cases location with
    | nil => cases htarget
    | cons name rest => cases htarget

/-- Where no name stands twice, every entry is found under its name. -/
theorem lookup_of_mem {node : Node} (hnode : node.names.Nodup) {entry : String × Node}
    (hentry : entry ∈ node.entries) : node.entries.lookup entry.1 = some entry.2 := by
  unfold names at hnode
  generalize node.entries = es at hnode hentry
  induction es with
  | nil => cases hentry
  | cons first es ih =>
      obtain ⟨key, found⟩ := first
      rw [List.map_cons, List.nodup_cons] at hnode
      rw [List.lookup_cons]
      rcases List.mem_cons.mp hentry with rfl | hrest
      · simp
      · have hne : entry.1 ≠ key := by
          rintro rfl
          exact hnode.1 (List.mem_map.mpr ⟨entry, hrest, rfl⟩)
        rw [beq_eq_false_iff_ne.mpr hne]
        exact ih hnode.2 hrest

theorem Proper.get?_of_mem {tree node : Node} (htree : tree.Proper) {location : Location}
    (hnode : tree.get? location = some node) {entry : String × Node}
    (hentry : entry ∈ node.entries) : tree.get? (location ++ [entry.1]) = some entry.2 := by
  have hlookup := lookup_of_mem (htree.distinct location node hnode) hentry
  rw [get?_append, hnode, Option.bind_some, get?, hlookup]
  rfl

theorem names_modify_cons (f : Node → Node) (key : String) (rest : Location) (node : Node) :
    (node.modify f (key :: rest)).names = node.names := by
  cases node with
  | dir es modified => simp [modify, names, entries, mapNamed]
  | _ => rfl

/-- A change at one location leaves the names in all other directories as they are. -/
theorem names_of_get?_modify {f : Node → Node} {location other : Location}
    (hbehind : ¬location <+: other) {tree node : Node}
    (hnode : (tree.modify f location).get? other = some node) :
    ∃ old, tree.get? other = some old ∧ node.names = old.names := by
  by_cases habove : other <+: location
  · obtain ⟨rest, rfl⟩ := habove
    rw [get?_modify_above] at hnode
    obtain ⟨old, hold, rfl⟩ := Option.map_eq_some_iff.mp hnode
    cases rest with
    | nil => exact absurd (by simp) hbehind
    | cons key rest => exact ⟨old, hold, names_modify_cons f key rest old⟩
  · rw [get?_modify_apart f hbehind habove] at hnode
    exact ⟨node, hnode, rfl⟩

theorem lookup_eq_none_of_kindAt {tree node : Node} {location : Location} {name : String}
    (hnode : tree.get? location = some node) (hfree : tree.kindAt (location ++ [name]) = none) :
    node.entries.lookup name = none := by
  rw [kindAt_append, hnode, Option.bind_some, kindAt_cons] at hfree
  cases hlookup : node.entries.lookup name with
  | none => rfl
  | some found => simp [hlookup, kindAt, get?] at hfree

theorem distinct_put {tree : Node}
    (htree : ∀ location node, tree.get? location = some node → node.names.Nodup)
    {parent : Location} {name : String} {node : Node} (hnode : node.entries = [])
    (hfree : tree.kindAt (parent ++ [name]) = none) :
    ∀ location found, (tree.put parent name node).get? location = some found →
      found.names.Nodup := by
  intro location found hfound
  by_cases hbehind : parent <+: location
  · obtain ⟨rest, rfl⟩ := hbehind
    rw [put, get?_modify_append] at hfound
    obtain ⟨old, hold, hfound⟩ := Option.bind_eq_some_iff.mp hfound
    have hvacant := lookup_eq_none_of_kindAt hold hfree
    have hnodup := htree parent old hold
    cases old with
    | dir es modified =>
        cases rest with
        | nil =>
            rw [get?, Option.some.injEq] at hfound
            subst hfound
            rw [entries] at hvacant
            have hnew : ∀ other ∈ es, name ≠ other.1 := by
              simpa [List.lookup_eq_none_iff] using hvacant
            have hput : putEntry name node es = es ++ [(name, node)] := by
              rw [putEntry, hvacant]
              rfl
            rw [names, mapEntries, entries, hput, List.map_append, List.nodup_append]
            refine ⟨hnodup, by simp, fun key hkey other hother => ?_⟩
            obtain ⟨entry, hentry, rfl⟩ := List.mem_map.mp hkey
            rw [List.map_singleton, List.mem_singleton] at hother
            exact hother ▸ (hnew entry hentry).symm
        | cons key rest =>
            rw [mapEntries, get?, entries, lookup_putEntry] at hfound
            split at hfound
            · rw [Option.bind_some] at hfound
              cases rest with
              | nil =>
                  rw [get?, Option.some.injEq] at hfound
                  rw [names, ← hfound, hnode]
                  exact List.nodup_nil
              | cons next rest => simp [get?, hnode] at hfound
            · refine htree (parent ++ key :: rest) found ?_
              rw [get?_append, hold, Option.bind_some, get?]
              exact hfound
    | _ =>
        refine htree (parent ++ rest) found ?_
        rw [get?_append, hold]
        exact hfound
  · obtain ⟨old, hold, hnames⟩ := names_of_get?_modify hbehind hfound
    rw [hnames]
    exact htree location old hold

theorem Proper.put {tree : Node} (htree : tree.Proper) {parent : Location} {name : String}
    {node : Node} (hname : IsAccepted name)
    (hlink : ∀ target, node.kind = .link target → Disk.hasNul target = false)
    (hnode : node.entries = []) (hfree : tree.kindAt (parent ++ [name]) = none) :
    (tree.put parent name node).Proper where
  accepted := by
    intro location kind hkind
    rw [kindAt_put tree parent name hnode hfree] at hkind
    split at hkind
    · next hnew =>
        obtain ⟨rfl, hparent⟩ := hnew
        intro other hother
        rcases List.mem_append.mp hother with hother | hother
        · exact htree.accepted parent _ hparent other hother
        · rw [List.mem_singleton.mp hother]
          exact hname
    · exact htree.accepted location kind hkind
  distinct := distinct_put htree.distinct hnode hfree
  targets := by
    intro location target hkind
    rw [kindAt_put tree parent name hnode hfree] at hkind
    split at hkind
    · exact hlink target (Option.some.inj hkind)
    · exact htree.targets location target hkind

theorem Proper.modify {tree : Node} (htree : tree.Proper) {f : Node → Node}
    (hkind : ∀ node, (f node).kind = node.kind) (hentries : ∀ node, (f node).entries = node.entries)
    (location : Location) : (tree.modify f location).Proper where
  accepted := by
    intro other kind hother
    rw [kindAt_modify hkind hentries] at hother
    exact htree.accepted other kind hother
  distinct := by
    intro other node hnode
    by_cases hbehind : location <+: other
    · obtain ⟨rest, rfl⟩ := hbehind
      rw [get?_modify_append] at hnode
      obtain ⟨old, hold, hnode⟩ := Option.bind_eq_some_iff.mp hnode
      cases rest with
      | nil =>
          rw [get?, Option.some.injEq] at hnode
          rw [names, ← hnode, hentries]
          exact htree.distinct location old hold
      | cons key rest =>
          refine htree.distinct (location ++ key :: rest) node ?_
          rw [get?_append, hold, Option.bind_some]
          rw [get?, hentries] at hnode
          rw [get?, hnode]
    · obtain ⟨old, hold, hnames⟩ := names_of_get?_modify hbehind hnode
      rw [hnames]
      exact htree.distinct other old hold
  targets := by
    intro other target hother
    rw [kindAt_modify hkind hentries] at hother
    exact htree.targets other target hother

end Node

theorem IsAccepted.hasNul {name : String} (hname : IsAccepted name) : Disk.hasNul name = false :=
  Disk.hasNul_eq_false_iff.mpr hname.no_nul

/-- A name of a path is accepted unless it is too long or one of the two that are not names. -/
theorem isAccepted_of_mem_pathNames {path name : String} (hpath : Disk.hasNul path = false)
    (hname : name ∈ pathNames path) (hdot : name ≠ ".") (hdotdot : name ≠ "..")
    (hshort : name.utf8ByteSize ≤ greatestName) : IsAccepted name := by
  rw [Disk.hasNul_eq_false_iff] at hpath
  obtain ⟨part, hpart, rfl⟩ := List.mem_map.mp hname
  obtain ⟨hsegment, hne⟩ := List.mem_filter.mp hpart
  have hproper : Path.IsName part := by
    rw [Path.isName_iff]
    refine ⟨by simpa using hne, Path.slash_not_mem_of_mem_segments hsegment, ?_, ?_⟩
    · rintro rfl
      exact hdot rfl
    · rintro rfl
      exact hdotdot rfl
  refine ⟨by rwa [String.toList_ofList], ?_, hshort⟩
  rw [String.toList_ofList]
  intro hmem
  have hjoined := Path.mem_joinSegments_of_mem hsegment hmem
  rw [Path.joinSegments_segments] at hjoined
  exact hpath hjoined

namespace Disk

variable {d d' : Disk} {path : String}

theorem isAccepted_of_tip {parent : Place} {name : String} {slash : Bool}
    (hpath : hasNul path = false) (htip : d.tip path = .ok (parent, .name name slash))
    (hshort : name.utf8ByteSize ≤ greatestName) : IsAccepted name := by
  obtain ⟨-, hlast, -⟩ := tip_eq_ok_iff.mp htip
  obtain ⟨hname, hdot, hdotdot, -⟩ := lastTip_eq_name_iff.mp hlast
  exact isAccepted_of_mem_pathNames hpath (List.mem_of_getLast? hname) hdot hdotdot hshort

/-- The name that is opened for writing is one of the path or one of a link. -/
theorem isAccepted_of_writableFrom {tree : Node} (htree : tree.Proper) {fuel links : Nat}
    {place parent : Place} {path : String} {slash : Bool} {name : String}
    (hpath : hasNul path = false)
    (hwritable : writableFrom tree fuel links place (pathNames path) slash = .ok (parent, name)) :
    IsAccepted name := by
  induction fuel generalizing links place path slash with
  | zero => simp [writableFrom] at hwritable
  | succ fuel ih =>
      rw [writableFrom] at hwritable
      cases henter : enter tree links place (pathNames path).dropLast with
      | error code => simp [henter, bind, Except.bind] at hwritable
      | ok found =>
          obtain ⟨above, left⟩ := found
          simp only [henter, bind, Except.bind] at hwritable
          cases hlast : (pathNames path).getLast? with
          | none => simp [hlast] at hwritable
          | some last =>
              simp only [hlast] at hwritable
              split_ifs at hwritable with hclosed hlong
              have hproper : IsAccepted last := by
                simp only [not_or] at hclosed
                exact isAccepted_of_mem_pathNames hpath (List.mem_of_getLast? hlast) hclosed.1
                  hclosed.2.1 (Nat.not_lt.mp hlong)
              cases hentry : (above.entries tree).lookup last with
              | none =>
                  simp only [hentry, Except.ok.injEq, Prod.mk.injEq] at hwritable
                  exact hwritable.2 ▸ hproper
              | some node =>
                  cases node with
                  | dir es modified => simp [hentry] at hwritable
                  | link target =>
                      have hkind := (kindAt_of_lookup_some hentry).2
                      have htarget := htree.targets _ _ hkind
                      cases left with
                      | zero => simp [hentry] at hwritable
                      | succ left =>
                          simp only [hentry] at hwritable
                          exact ih htarget hwritable
                  | _ =>
                      simp only [hentry, Except.ok.injEq, Prod.mk.injEq] at hwritable
                      exact hwritable.2 ▸ hproper

theorem isAccepted_of_writable (htree : d.tree.Proper) (hpath : hasNul path = false)
    {parent : Place} {name : String}
    (hwritable : writable d.tree d.cwd path = .ok (parent, name)) : IsAccepted name := by
  unfold writable at hwritable
  cases hcheck : checkPath path with
  | error code => simp [hcheck, bind, Except.bind] at hwritable
  | ok _ =>
      simp only [hcheck, bind, Except.bind] at hwritable
      exact isAccepted_of_writableFrom htree hpath hwritable

/-! ## What a request keeps -/

/-- All entries are still there, and of the same kind, and no improper ones have been added. -/
structure Grows (d d' : Disk) : Prop where
  tree : d.tree.KeepsKinds d'.tree
  current : d'.cwd = d.cwd
  proper : d.tree.Proper → d'.tree.Proper

theorem Grows.put {parent : Location} {name : String} {node : Node}
    (hname : d.tree.Proper → IsAccepted name)
    (hlink : ∀ target, node.kind = .link target → hasNul target = false)
    (hnode : node.entries = []) (hfree : d.tree.kindAt (parent ++ [name]) = none) :
    d.Grows { d with tree := d.tree.put parent name node } :=
  ⟨Node.keepsKinds_put hnode hfree, rfl, fun htree =>
    htree.put (hname htree) hlink hnode hfree⟩

theorem Grows.modify {f : Node → Node} (hkind : ∀ node, (f node).kind = node.kind)
    (hentries : ∀ node, (f node).entries = node.entries) (location : Location) :
    d.Grows { d with tree := d.tree.modify f location } :=
  ⟨Node.keepsKinds_modify hkind hentries _ _, rfl, fun htree => htree.modify hkind hentries _⟩

theorem grows_of_makeDirectory (hpath : hasNul path = false)
    (hmake : d.makeDirectory path = .ok d') : d.Grows d' := by
  obtain ⟨parent, name, slash, htip, -, hshort, hfree, rfl⟩ := makeDirectory_inv hmake
  refine Grows.put (fun _ => isAccepted_of_tip hpath htip hshort) (fun target hkind => ?_) rfl hfree
  cases hkind

theorem grows_of_makeLink {target : String} (htarget : hasNul target = false)
    (hpath : hasNul path = false) (hmake : d.makeLink target path = .ok d') : d.Grows d' := by
  obtain ⟨parent, name, htip, -, hshort, hfree, rfl⟩ := makeLink_inv hmake
  refine Grows.put (fun _ => isAccepted_of_tip hpath htip hshort) (fun other hkind => ?_) rfl hfree
  cases hkind
  exact htarget

theorem grows_of_store {data : Bytes} (hpath : hasNul path = false)
    (hstore : d.store data path = .ok d') : d.Grows d' := by
  obtain ⟨parent, name, hwritable, -, ⟨hfree, rfl⟩ | ⟨-, rfl⟩⟩ := store_inv hstore
  · refine Grows.put (fun htree => isAccepted_of_writable htree hpath hwritable)
      (fun target hkind => ?_) rfl hfree
    cases hkind
  · exact Grows.modify (Node.kind_withData data) (Node.entries_withData data) _

theorem grows_of_copyStatus {source : Node} (hcopy : d.copyStatus source path = .ok d') :
    d.Grows d' := by
  obtain ⟨place, node, -, rfl⟩ := copyStatus_inv hcopy
  split
  · exact Grows.modify (Node.kind_withStatus source) (Node.entries_withStatus source) _
  · exact ⟨.refl d.tree, rfl, id⟩

end Disk

theorem isFrame_diskGrows : IsFrame Disk.Grows where
  refl d := ⟨.refl d.tree, rfl, id⟩
  trans h h' := ⟨h.tree.trans h'.tree, h'.current.trans h.current, h'.proper ∘ h.proper⟩

/-- The disk has grown out of another one, and its names are proper. -/
structure Disk.GrownFrom (d₀ d : Disk) : Prop where
  grows : d₀.Grows d
  proper : d.tree.Proper

theorem Disk.GrownFrom.trans {d₀ d d' : Disk} (hgrown : d₀.GrownFrom d) (hgrows : d.Grows d') :
    d₀.GrownFrom d' := ⟨isFrame_diskGrows.trans hgrown.grows hgrows, hgrows.proper hgrown.proper⟩

end BuildRunner
