import BuildRunner.Proofs.Disk.Copying
import BuildRunner.Proofs.Disk.Making

/-!
# Where copies are placed

The copy of a file changes nothing but at its own place.  It is found there as a file, with the bytes
and the status of the source, if it succeeds.  A copy of a directory to a path with something in the
way fails and changes nothing.
-/

namespace BuildRunner

open BuildRunner.Text (Bytes)

/-! ## Places apart from each other -/

/-- Neither of two locations is at or below the other. -/
structure Location.Apart (a b : Location) : Prop where
  not_above : ¬a <+: b
  not_below : ¬b <+: a

namespace Location.Apart

variable {a b : Location}

theorem symm (hapart : Location.Apart a b) : Location.Apart b a :=
  ⟨hapart.not_below, hapart.not_above⟩

/-- What is below one of them is apart from what is below the other. -/
theorem append (hapart : Location.Apart a b) (front rest : Location) :
    Location.Apart (a ++ front) (b ++ rest) := by
  have hnever : ∀ {way : Location}, a <+: way → b <+: way → False := fun ha hb =>
    (List.prefix_or_prefix_of_prefix ha hb).elim hapart.not_above hapart.not_below
  exact ⟨fun h => hnever ((List.prefix_append _ _).trans h) (List.prefix_append _ _),
    fun h => hnever (List.prefix_append _ _) ((List.prefix_append _ _).trans h)⟩

theorem of_ne (base : Location) {name other : String} (hne : name ≠ other) :
    Location.Apart (base ++ [name]) (base ++ [other]) := by
  constructor
  · exact fun h => hne (by simpa using h)
  · exact fun h => hne (by simpa [eq_comm] using h)

end Location.Apart

namespace Node

theorem own_modify_cons (f : Node → Node) (key : String) (rest : Location) (node : Node) :
    (node.modify f (key :: rest)).own = node.own := by
  cases node <;> rfl

/-- A change at a location leaves the directories above by themselves as they are. -/
theorem ownAt_modify_above (f : Node → Node) {location other : Location}
    (habove : other <+: location) (hne : other ≠ location) (tree : Node) :
    (tree.modify f location).ownAt other = tree.ownAt other := by
  obtain ⟨rest, rfl⟩ := habove
  cases rest with
  | nil => exact absurd (List.append_nil _).symm hne
  | cons key rest =>
      rw [ownAt, get?_modify_above, ownAt]
      cases tree.get? other with
      | none => rfl
      | some node => exact congrArg some (own_modify_cons f key rest node)

theorem get?_modify_self (f : Node → Node) (location : Location) (tree : Node) :
    (tree.modify f location).get? location = (tree.get? location).map f := by
  have hself := get?_modify_append f location [] tree
  rw [List.append_nil] at hself
  rw [hself]
  cases tree.get? location <;> rfl

/-- Nothing is below an entry that is no directory. -/
theorem ownAt_below {tree : Node} {location : Location}
    (hleaf : tree.kindAt location ≠ some .directory) (key : String) (rest : Location) :
    tree.ownAt (location ++ key :: rest) = none := by
  have hnone : tree.kindAt (location ++ key :: rest) = none := by
    by_contra hsome
    obtain ⟨kind, hkind⟩ := Option.ne_none_iff_exists'.mp hsome
    exact hleaf (kindAt_directory_of_nonempty hkind)
  rw [kindAt_eq_ownAt, Option.map_eq_none_iff] at hnone
  exact hnone

end Node

/-- Nothing has happened but at a location and below, and that missing directories have been made on
the way there. -/
structure Disk.Within (base : Location) (d d' : Disk) : Prop where
  apart : ∀ {location}, Location.Apart base location →
    d'.tree.get? location = d.tree.get? location
  above : ∀ {location}, location <+: base → location ≠ base → d.tree.SameOrMade d'.tree location

theorem isFrame_within (base : Location) : IsFrame (Disk.Within base) where
  refl _ := ⟨fun _ => rfl, fun _ _ => Or.inl rfl⟩
  trans h h' := ⟨fun hother => (h'.apart hother).trans (h.apart hother),
    fun hway hne => (h.above hway hne).trans (h'.above hway hne)⟩

namespace Disk

variable {d d' : Disk} {base above : Location}

theorem MakesWay.within (hway : d.MakesWay base d') : d.Within base d' where
  apart hother := hway.apart hother.not_below
  above hinit _ := hway.above hinit

namespace Within

theorem mono (hwithin : d.Within base d') (habove : above <+: base) : d.Within above d' where
  apart := by
    intro location hapart
    obtain ⟨rest, rfl⟩ := habove
    have hbelow := hapart.append rest []
    rw [List.append_nil] at hbelow
    exact hwithin.apart hbelow
  above := by
    intro location hinit hne
    refine hwithin.above (hinit.trans habove) ?_
    rintro rfl
    exact hne (hinit.eq_of_length_le habove.length_le)

theorem ownAt_apart (hwithin : d.Within base d') {location : Location}
    (hapart : Location.Apart base location) :
    d'.tree.ownAt location = d.tree.ownAt location := by
  rw [Node.ownAt, hwithin.apart hapart, Node.ownAt]

theorem kindAt_apart (hwithin : d.Within base d') {location : Location}
    (hapart : Location.Apart base location) :
    d'.tree.kindAt location = d.tree.kindAt location := by
  rw [Node.kindAt, hwithin.apart hapart, Node.kindAt]

end Within

theorem within_put {parent : Location} {name : String} {node : Node} (hnode : node.entries = [])
    (hfree : d.tree.kindAt (parent ++ [name]) = none) :
    d.Within (parent ++ [name]) { d with tree := d.tree.put parent name node } where
  apart := by
    intro location hapart
    have hparent : ¬location <+: parent := fun hinit =>
      hapart.not_below (hinit.trans (List.prefix_append _ _))
    refine (Node.get?_put _ _ _ hnode hfree hparent).trans (if_neg ?_)
    rintro ⟨rfl, -⟩
    exact hapart.not_above (List.prefix_refl _)
  above := by
    intro location _ hne
    exact Or.inl ((Node.ownAt_put _ _ _ hnode hfree _).trans (if_neg fun h => hne h.1))

theorem within_modify (f : Node → Node) (base : Location) :
    d.Within base { d with tree := d.tree.modify f base } where
  apart hapart := Node.get?_modify_apart f hapart.not_above hapart.not_below d.tree
  above hinit hne := Or.inl (Node.ownAt_modify_above f hinit hne d.tree)

end Disk

/-! ## Copying one file -/

namespace DiskM

variable {d d' : Disk} {source : CopySource} {target : String} {result : Except Failure Unit}

theorem respects_sameEntry (a b : String) : Respects Eq (sameEntry a b) := by
  intro d
  unfold sameEntry
  cases Disk.hasNul a || Disk.hasNul b with
  | true => rfl
  | false =>
      rw [stateAfter, if_neg (by decide), run_bind, run_get]
      dsimp only
      split
      · rfl
      · rfl

theorem respects_refusePipe (path : String) : Respects Eq (refusePipe path) := by
  refine respects_bind isFrame_eq (respects_get isFrame_eq) fun d => ?_
  split
  · exact respects_throw isFrame_eq _
  · exact respects_pure isFrame_eq _

theorem refusePipe_eq_ok {path : String} (hrun : (refusePipe path).run d = (.ok (), d')) :
    d.node? true path ≠ some .pipe := by
  intro hpipe
  unfold refusePipe at hrun
  rw [run_bind, run_get] at hrun
  dsimp only at hrun
  rw [hpipe] at hrun
  cases hrun

theorem ask_eq_ok {α : Type} {path : String} {question : Disk → Except Errno α} {a : α}
    (hrun : (ask path question).run d = (.ok a, d')) : question d = .ok a := by
  rw [run_ask] at hrun
  split at hrun
  · cases hrun
  · cases hquestion : question d with
    | ok b =>
        rw [hquestion] at hrun
        cases hrun
        rfl
    | error code =>
        rw [hquestion] at hrun
        cases hrun

/-- A change that is refused leaves the disk alone, whatever is made of the failure. -/
theorem change_catch_cases {path : String} {request : Disk → Except Errno Disk}
    {handler : Failure → DiskM Unit}
    (hhandler : ∀ failure d, ∃ other, (handler failure).run d = (.error other, d))
    (hrun : (tryCatch (change path request) handler).run d = (result, d')) :
    (d' = d ∧ ∃ failure, result = .error failure) ∨ (result = .ok () ∧ request d = .ok d') := by
  have hfailed : ∀ {failure}, (handler failure).run d = (result, d') →
      d' = d ∧ ∃ failure, result = .error failure := by
    intro failure hhandled
    obtain ⟨other, hother⟩ := hhandler failure d
    rw [hother] at hhandled
    cases hhandled
    exact ⟨rfl, other, rfl⟩
  rw [run_tryCatch, run_change] at hrun
  cases hnul : Disk.hasNul path with
  | true =>
      rw [hnul, if_pos rfl] at hrun
      exact Or.inl (hfailed hrun)
  | false =>
      rw [hnul, if_neg (by decide)] at hrun
      cases hrequest : request d with
      | ok t =>
          rw [hrequest] at hrun
          cases hrun
          exact Or.inr ⟨rfl, rfl⟩
      | error code =>
          rw [hrequest] at hrun
          exact Or.inl (hfailed hrun)

section

variable {R : Disk → Disk → Prop} (hR : IsFrame R)

include hR

/-- What holds of storing bytes and of setting the status holds of copying a file. -/
theorem respects_copyBytes (source : CopySource) {target : String}
    (hstore : ∀ data d d', Disk.hasNul target = false → d.store data target = .ok d' → R d d') :
    Respects R (copyBytes source target) := by
  have hasks : ∀ {α : Type} {action : DiskM α}, Respects Eq action → Respects R action :=
    fun haction => haction.mono fun d d' hsame => hsame ▸ hR.refl d
  unfold copyBytes
  refine respects_bind hR (hasks (respects_sameEntry _ _)) fun same => ?_
  split
  · exact fun d => hR.refl d
  refine respects_bind hR (hasks (respects_refusePipe _)) fun _ => ?_
  refine respects_bind hR (hasks (respects_refusePipe _)) fun _ => ?_
  refine respects_bind hR (respects_ask hR _ _) fun data => ?_
  refine respects_tryCatch hR (respects_change hR target fun d d' => hstore data d d')
    fun failure => ?_
  split
  · refine respects_bind hR (respects_get hR) fun d => ?_
    split
    · exact respects_throw hR _
    · exact respects_throw hR _
  · exact respects_throw hR _

end

theorem copyBytes_cases (hrun : (copyBytes source target).run d = (result, d')) :
    (d' = d ∧ ∃ failure, result = .error failure) ∨
      (result = .ok () ∧ d.node? true source.path ≠ some .pipe ∧
        ∃ data, d.read source.path = .ok data ∧ d.store data target = .ok d') := by
  unfold copyBytes at hrun
  rcases run_bind_of_unchanged (respects_sameEntry _ _) hrun with hfailed | ⟨same, -, hrun⟩
  · exact Or.inl hfailed
  cases same with
  | true =>
      cases hrun
      exact Or.inl ⟨rfl, _, rfl⟩
  | false =>
      rcases run_bind_of_unchanged (respects_refusePipe _) hrun with hfailed | ⟨_, hpipe, hrun⟩
      · exact Or.inl hfailed
      rcases run_bind_of_unchanged (respects_refusePipe _) hrun with hfailed | ⟨_, -, hrun⟩
      · exact Or.inl hfailed
      rcases run_bind_of_unchanged (respects_ask isFrame_eq _ _) hrun with
        hfailed | ⟨data, hread, hrun⟩
      · exact Or.inl hfailed
      refine (change_catch_cases (fun failure d => ?_) hrun).imp_right fun hstored =>
        ⟨hstored.1, refusePipe_eq_ok hpipe, data, ask_eq_ok hread, hstored.2⟩
      split
      · rw [run_bind, run_get]
        dsimp only
        split
        · exact ⟨_, rfl⟩
        · exact ⟨_, rfl⟩
      · exact ⟨_, rfl⟩

theorem copyStatus_cases {source : String}
    (hrun : (copyStatus source target).run d = (result, d')) :
    (d' = d ∧ ∃ failure, result = .error failure) ∨
      (result = .ok () ∧ ∃ place node, d.status true source = .ok (place, node) ∧
        d.copyStatus node target = .ok d') := by
  unfold copyStatus at hrun
  rcases run_bind_of_unchanged (respects_ask isFrame_eq _ _) hrun with
    hfailed | ⟨⟨place, node⟩, hstatus, hrun⟩
  · exact Or.inl hfailed
  cases hnul : Disk.hasNul target with
  | true =>
      rw [hnul] at hrun
      cases hrun
      exact Or.inl ⟨rfl, _, rfl⟩
  | false =>
      rw [hnul] at hrun
      dsimp only at hrun
      rw [if_neg (by decide), run_bind, run_get] at hrun
      dsimp only at hrun
      cases hcopy : d.copyStatus node target with
      | ok t =>
          rw [hcopy] at hrun
          cases hrun
          exact Or.inr ⟨rfl, place, node, ask_eq_ok hstatus, hcopy⟩
      | error code =>
          rw [hcopy] at hrun
          cases hrun
          exact Or.inl ⟨rfl, _, rfl⟩

/-- A file is copied by storing its bytes and then its status. -/
theorem respects_copyStatus {R : Disk → Disk → Prop} (hR : IsFrame R) (source : String)
    {target : String} (hstatus : ∀ node d d', d.copyStatus node target = .ok d' → R d d') :
    Respects R (copyStatus source target) := by
  intro d
  rcases copyStatus_cases (run_eq _ d) with ⟨hsame, -⟩ | ⟨-, _, node, -, hcopy⟩
  · rw [hsame]
    exact hR.refl d
  · exact hstatus node d _ hcopy

theorem copyFile_cases (hfree : d.isDirectory target = false)
    (hrun : (copyFile source target).run d = (result, d')) :
    (d' = d ∧ ∃ failure, result = .error failure) ∨
      ∃ data t, d.node? true source.path ≠ some .pipe ∧ d.read source.path = .ok data ∧
        d.store data target = .ok t ∧
          ((d' = t ∧ ∃ failure, result = .error failure) ∨
            (result = .ok () ∧ ∃ place node, t.status true source.path = .ok (place, node) ∧
              t.copyStatus node target = .ok d')) := by
  unfold copyFile at hrun
  rw [run_bind, run_get] at hrun
  dsimp only at hrun
  rw [hfree, if_neg (by decide), run_bind] at hrun
  rcases hbytes : (copyBytes source target).run d with ⟨failure | _, t⟩
  · rw [hbytes] at hrun
    cases hrun
    rcases copyBytes_cases hbytes with hfailed | ⟨hok, -⟩
    · exact Or.inl hfailed
    · cases hok
  · rw [hbytes] at hrun
    rcases copyBytes_cases hbytes with ⟨-, failure, hfailed⟩ | ⟨-, hpipe, data, hread, hstore⟩
    · cases hfailed
    · exact Or.inr ⟨data, t, hpipe, hread, hstore, copyStatus_cases hrun⟩

end DiskM

/-! ## Files by their names -/

namespace Disk

variable {d d' : Disk} {path name : String} {base location : Location} {node : Node}

/-- A name behind a directory that a path enters names the entry there, unless it is too long. -/
theorem Enters.names (henters : d.Enters path base) (hpath : hasNul path = false)
    (hname : IsAccepted name) (hcheck : checkPath (Path.join path name) = .ok ()) :
    d.Names (Path.join path name) (base ++ [name]) := by
  obtain ⟨left, hway⟩ := henters.way
  have hentry := namesEntry_join hname.toIsName path
  refine ⟨hasNul_join hpath hname.hasNul, ⟨base, []⟩, name, rfl, rfl, hname.short, hentry,
    tip_eq_ok_iff.mpr ⟨hcheck, lastTip_eq_name_iff.mpr
      ⟨hentry.last, hentry.ne_dot, hentry.ne_dotdot, hentry.no_slash⟩, left, ?_⟩⟩
  rw [startPlace_of_front henters.ne_empty (prefix_join hname.toIsName path),
    pathNames_join hname.toIsName, List.dropLast_concat]
  exact hway

/-- What stands at the location that a path names is what the path leads to, links at the end
apart. -/
theorem Names.status (hnames : d.Names path location) (hnode : d.tree.get? location = some node)
    (hdirectory : node.kind ≠ .directory) {follow : Bool}
    (hlink : follow = true → ∀ target, node.kind ≠ .link target) :
    d.status follow path = .ok (⟨location, []⟩, node) := by
  obtain ⟨-, ⟨parent, lost⟩, name, rfl, rfl, hshort, hpath, htip⟩ := hnames
  obtain ⟨links, hlocate⟩ := locate_of_tip hpath htip
  refine status_eq_ok_iff.mpr (Or.inr ⟨⟨parent, []⟩, name, ?_, rfl⟩)
  rw [hlocate, if_neg (Nat.not_lt.mpr hshort), Place.lookup_entries d.tree rfl, hnode]
  cases node with
  | dir es modified => exact absurd rfl hdirectory
  | link target =>
      cases follow with
      | true => exact absurd rfl (hlink rfl target)
      | false => rfl
  | _ => rfl

/-- Storing bytes by a path makes a file of them where the path says. -/
theorem Names.store {data : Bytes} (hcwd : d.tree.kindAt d.cwd.base = some .directory)
    (hnames : d.Names path location)
    (hfree : d.tree.kindAt location = none ∨ d.tree.kindAt location = some .file)
    (hstore : d.store data path = .ok d') :
    d.Within location d' ∧ ∃ executable modified,
      d'.tree.get? location = some (.file data executable modified) := by
  obtain ⟨-, parent, name, rfl, -, -, hpath, htip⟩ := hnames
  obtain ⟨place, last, hwritable, -, hstored⟩ := store_inv hstore
  obtain ⟨other, hother, -, -, hend⟩ := tip_of_writable hpath hwritable
  rw [htip] at hother
  cases hother
  rcases hend with ⟨linked, hlink⟩ | ⟨rfl, rfl⟩
  · rw [(kindAt_of_lookup_some hlink).2] at hfree
    simp [Node.kind] at hfree
  · rcases hstored with ⟨hnone, rfl⟩ | ⟨⟨node, hnode⟩, rfl⟩
    · refine ⟨within_put rfl hnone, false, none, ?_⟩
      have hfile : (Node.file data false none).entries = [] := rfl
      have hbelow : ¬place.base ++ [last] <+: place.base := fun h => by simpa using h.length_le
      exact (Node.get?_put _ _ _ hfile hnone hbelow).trans (if_pos ⟨rfl, kindAt_of_tip hcwd htip⟩)
    · refine ⟨within_modify _ _, ?_⟩
      rw [Node.kindAt, hnode] at hfree
      show ∃ executable modified, (d.tree.modify (Node.withData data) _).get? _ = _
      rw [Node.get?_modify_self, hnode]
      cases node with
      | file old executable modified => exact ⟨executable, none, rfl⟩
      | _ => simp [Node.kind] at hfree

theorem Names.copyStatus {source : Node} (hnames : d.Names path location)
    (hnode : d.tree.get? location = some node) (hfile : node.kind = .file)
    (hcopy : d.copyStatus source path = .ok d') :
    d.Within location d' ∧ d'.tree.get? location = some (Node.withStatus source node) := by
  obtain ⟨place, found, hstatus, rfl⟩ := copyStatus_inv hcopy
  rw [hnames.status hnode (by simp [hfile]) (by simp [hfile])] at hstatus
  cases hstatus
  refine ⟨within_modify _ _, ?_⟩
  show (d.tree.modify (Node.withStatus source) location).get? location = _
  rw [Node.get?_modify_self, hnode]
  rfl

/-- The path names the entry at a location, unless it is too long. -/
def WouldName (d : Disk) (path : String) (location : Location) : Prop :=
  checkPath path = .ok () → d.Names path location

theorem WouldName.of_keeps (hnames : d.WouldName path location)
    (hkeeps : d.tree.KeepsWays d'.tree) (hcwd : d'.cwd = d.cwd) : d'.WouldName path location :=
  fun hcheck => (hnames hcheck).of_keeps hkeeps hcwd

theorem checkPath_of_locate {follow : Bool} {spot : Spot}
    (hlocate : d.locate follow path = .ok spot) : checkPath path = .ok () :=
  (locate_eq_ok_iff.mp hlocate).1

theorem checkPath_of_status {follow : Bool} {found : Place × Node}
    (hstatus : d.status follow path = .ok found) : checkPath path = .ok () := by
  obtain ⟨place, node⟩ := found
  rcases status_eq_ok_iff.mp hstatus with ⟨hlocate, -⟩ | ⟨parent, name, hlocate, -⟩
  · exact checkPath_of_locate hlocate
  · exact checkPath_of_locate hlocate

theorem checkPath_of_store {data : Bytes} (hstore : d.store data path = .ok d') :
    checkPath path = .ok () := by
  obtain ⟨parent, name, hwritable, -⟩ := store_inv hstore
  unfold writable at hwritable
  cases hcheck : checkPath path with
  | error code => simp [hcheck, bind, Except.bind] at hwritable
  | ok _ => rfl

theorem read_eq_ok {data : Bytes} (hread : d.read path = .ok data) :
    ∃ place node, d.status true path = .ok (place, node) ∧ node.kind ≠ .directory ∧
      data = node.data := by
  unfold read at hread
  cases hstatus : d.status true path with
  | error code => simp [hstatus, bind, Except.bind] at hread
  | ok found =>
      obtain ⟨place, node⟩ := found
      simp only [hstatus, bind, Except.bind] at hread
      split at hread
      · cases hread
      · next hdir =>
          refine ⟨place, node, rfl, ?_, (Except.ok.inj hread).symm⟩
          intro hkind
          cases node with
          | dir es modified => exact hdir rfl
          | _ => cases hkind

/-- A path that names a file or nothing leads to no directory. -/
theorem WouldName.isDirectory_eq_false (hnames : d.WouldName path location)
    (hfree : d.tree.kindAt location = none ∨ d.tree.kindAt location = some .file) :
    d.isDirectory path = false := by
  rw [Bool.eq_false_iff]
  intro hdirectory
  obtain ⟨place, hlocate⟩ := exists_place_of_isDirectory hdirectory
  rw [isDirectory_iff, (hnames (checkPath_of_locate hlocate)).kindOf hfree.symm] at hdirectory
  rw [hdirectory] at hfree
  simp at hfree

end Disk

section

variable {d d' : Disk} {source : DiskM.CopySource} {target : String} {origin copy : Location}
  {entry : Node}

/-- What is copied as a file is found as a file at the copy, with its bytes and its status. -/
theorem copyFile_named {result : Except Failure Unit}
    (hcwd : d.tree.kindAt d.cwd.base = some .directory) (htarget : Disk.hasNul target = false)
    (hfrom : d.WouldName source.path origin) (hto : d.WouldName target copy)
    (hentry : d.tree.get? origin = some entry) (hplain : ¬entry.kind.IsWay)
    (hapart : Location.Apart copy origin)
    (hfree : d.tree.kindAt copy = none ∨ d.tree.kindAt copy = some .file)
    (hrun : (DiskM.copyFile source target).run d = (result, d')) :
    d.Within copy d' ∧ (result = .ok () → ∃ node, d'.tree.get? copy = some node ∧
      node.kind = .file ∧ (entry ≠ .null → node = entry)) := by
  have hdirectory : entry.kind ≠ .directory := by
    rintro hkind
    exact hplain (by rw [hkind]; trivial)
  have hlink : ∀ target, entry.kind ≠ .link target := by
    rintro target hkind
    exact hplain (by rw [hkind]; trivial)
  rcases DiskM.copyFile_cases (hto.isDirectory_eq_false hfree) hrun with
    ⟨rfl, failure, rfl⟩ | ⟨data, t, hpipe, hread, hstore, hrest⟩
  · refine ⟨(isFrame_within copy).refl d', ?_⟩
    rintro ⟨⟩
  obtain ⟨place, node, hstatus, -, rfl⟩ := Disk.read_eq_ok hread
  have hnames := hfrom (Disk.checkPath_of_status hstatus)
  have hsource : d.status true source.path = .ok (⟨origin, []⟩, entry) :=
    hnames.status hentry hdirectory fun _ => hlink
  rw [hsource] at hstatus
  cases hstatus
  have hgrows := Disk.grows_of_store htarget hstore
  have hcopy := hto (Disk.checkPath_of_store hstore)
  obtain ⟨hwithin, executable, modified, hstored⟩ := hcopy.store hcwd hfree hstore
  rcases hrest with ⟨rfl, failure, rfl⟩ | ⟨rfl, place, node, hstatus, hstatusCopied⟩
  · refine ⟨hwithin, ?_⟩
    rintro ⟨⟩
  have hnames' := hnames.of_keeps hgrows.tree.keepsWays hgrows.current
  have hentry' : t.tree.get? origin = some entry := (hwithin.apart hapart).trans hentry
  rw [hnames'.status hentry' hdirectory fun _ => hlink] at hstatus
  cases hstatus
  have hcopy' := hcopy.of_keeps hgrows.tree.keepsWays hgrows.current
  obtain ⟨hthen, hdated⟩ := hcopy'.copyStatus hstored rfl hstatusCopied
  refine ⟨(isFrame_within copy).trans hwithin hthen, fun _ => ⟨_, hdated, ?_, fun hnull => ?_⟩⟩
  · rfl
  · cases entry with
    | file data executable modified => rfl
    | pipe =>
        refine absurd ?_ hpipe
        rw [Disk.node?, hnames.no_nul, if_neg (by decide), hsource]
        rfl
    | null => exact absurd rfl hnull
    | dir es modified => exact absurd rfl hdirectory
    | link target => exact absurd rfl (hlink target)

end

/-! ## Copies that go nowhere -/

namespace Disk

variable {d d' : Disk} {path name : String}

theorem Shut.enter_error (hshut : d.Shut path) :
    ∃ code, enter d.tree linkLimit (startPlace d.cwd path) (pathNames path).dropLast =
      .error code := by
  cases henter : enter d.tree linkLimit (startPlace d.cwd path) (pathNames path).dropLast with
  | ok found => exact absurd henter (hshut found)
  | error code => exact ⟨code, rfl⟩

theorem Shut.locate_ne_ok (hshut : d.Shut path) {follow : Bool} {spot : Spot} :
    d.locate follow path ≠ .ok spot := by
  intro hlocate
  obtain ⟨code, henter⟩ := hshut.enter_error
  have hfound := (locate_eq_ok_iff.mp hlocate).2
  rw [locateFrom_succ, henter] at hfound
  cases hfound

theorem Shut.status_ne_ok (hshut : d.Shut path) {follow : Bool} {found : Place × Node} :
    d.status follow path ≠ .ok found := by
  intro hstatus
  obtain ⟨place, node⟩ := found
  rcases status_eq_ok_iff.mp hstatus with ⟨hlocate, -⟩ | ⟨parent, last, hlocate, -⟩
  · exact hshut.locate_ne_ok hlocate
  · exact hshut.locate_ne_ok hlocate

theorem Shut.isDirectory_eq_false (hshut : d.Shut path) : d.isDirectory path = false := by
  rw [Bool.eq_false_iff]
  intro hdirectory
  obtain ⟨place, hlocate⟩ := exists_place_of_isDirectory hdirectory
  exact hshut.locate_ne_ok hlocate

theorem Shut.makeLink_ne_ok (hshut : d.Shut path) {target : String} :
    d.makeLink target path ≠ .ok d' := by
  intro hmake
  obtain ⟨parent, last, htip, -⟩ := makeLink_inv hmake
  obtain ⟨-, -, left, henter⟩ := tip_eq_ok_iff.mp htip
  exact hshut _ henter

theorem Shut.store_ne_ok (hshut : d.Shut path) {data : Bytes} : d.store data path ≠ .ok d' := by
  intro hstore
  obtain ⟨parent, last, hwritable, -⟩ := store_inv hstore
  obtain ⟨code, henter⟩ := hshut.enter_error
  rw [writable, checkPath_of_store hstore] at hwritable
  change writableFrom d.tree (linkLimit + 1) linkLimit _ _ _ = _ at hwritable
  rw [writableFrom, henter] at hwritable
  cases hwritable

/-- Behind a path that is shut every name is. -/
theorem Shut.join (hshut : d.Shut path) (hname : Path.IsName name.toList) :
    d.Shut (Path.join path name) := by
  have hne : path ≠ "" := by
    rintro rfl
    exact hshut _ (enter_nil _ _ _)
  exact hshut.notEntered.shut hne (prefix_join hname path) (pathNames_join hname)

/-- Where a path is shut, nothing can be made on the way of a name behind it. -/
theorem NoRoom.join (hroom : d.NoRoom path) (hshut : d.Shut path)
    (hname : Path.IsName name.toList) : d.NoRoom (Path.join path name) := by
  intro front last parent left hinit henter
  have hne : path ≠ "" := by
    rintro rfl
    exact hshut _ (enter_nil _ _ _)
  rw [pathNames_join hname] at hinit
  rw [startPlace_of_front hne (prefix_join hname path)] at henter
  rcases List.prefix_concat_iff.mp hinit with hwhole | hbefore
  · obtain ⟨rfl, -⟩ := List.append_inj' hwhole rfl
    exact absurd henter (hshut.notEntered _)
  · exact hroom front last parent left hbefore henter

/-- No entry can be made in what the path leads to. -/
structure Sealed (d : Disk) (path : String) : Prop where
  no_room : ∀ {name : String}, Path.IsName name.toList → d.NoRoom (Path.join path name)
  no_directory : ∀ {name : String}, Path.IsName name.toList →
    d.isDirectory (Path.join path name) = false
  no_link : ∀ {name linked : String} {d' : Disk}, Path.IsName name.toList →
    d.makeLink linked (Path.join path name) ≠ .ok d'
  no_file : ∀ {name : String} {data : Bytes} {d' : Disk}, Path.IsName name.toList →
    d.store data (Path.join path name) ≠ .ok d'

theorem NoRoom.sealed (hroom : d.NoRoom path) (hshut : d.Shut path) : d.Sealed path where
  no_room hname := hroom.join hshut hname
  no_directory hname := (hshut.join hname).isDirectory_eq_false
  no_link hname := (hshut.join hname).makeLink_ne_ok
  no_file hname := (hshut.join hname).store_ne_ok

/-- In a directory that is gone nothing can be made. -/
theorem sealed_of_lost {place : Place} {left : Nat} (hne : path ≠ "")
    (henter : enter d.tree linkLimit (startPlace d.cwd path) (pathNames path) = .ok (place, left))
    (hlost : place.lost ≠ []) : d.Sealed path := by
  have hstart : ∀ {name : String}, Path.IsName name.toList →
      enter d.tree linkLimit (startPlace d.cwd (Path.join path name))
        (pathNames (Path.join path name)).dropLast = .ok (place, left) := by
    intro name hname
    rw [startPlace_of_front hne (prefix_join hname path), pathNames_join hname,
      List.dropLast_concat]
    exact henter
  have hnothing : ∀ name, (place.entries d.tree).lookup name = none := by
    intro name
    rw [Place.entries, if_neg (by simpa using hlost)]
    rfl
  constructor
  · intro name hname front last parent links hinit hfront hdot hdotdot
    rw [pathNames_join hname] at hinit
    rw [startPlace_of_front hne (prefix_join hname path)] at hfront
    rcases List.prefix_concat_iff.mp hinit with hwhole | hbefore
    · obtain ⟨rfl, -⟩ := List.append_inj' hwhole rfl
      rw [henter] at hfront
      cases hfront
      exact absurd rfl hlost
    · exact kindAt_ne_none_of_enter henter hbefore hfront hdot hdotdot
  · intro name hname
    have hentry := namesEntry_join hname path
    rw [Bool.eq_false_iff]
    intro hdirectory
    obtain ⟨there, hlocate⟩ := exists_place_of_isDirectory hdirectory
    have hcheck := checkPath_of_locate hlocate
    rw [locate_eq d hentry, hcheck, hstart hname] at hlocate
    simp only [Except.bind, hnothing, lastSpot] at hlocate
    split at hlocate
    · cases hlocate
    · cases hlocate
  · intro name linked d' hname hmake
    obtain ⟨parent, last, htip, hhere, -⟩ := makeLink_inv hmake
    obtain ⟨-, -, links, hfront⟩ := tip_eq_ok_iff.mp htip
    rw [hstart hname] at hfront
    cases hfront
    exact hlost hhere
  · intro name data d' hname hstore
    obtain ⟨there, last, hwritable, hhere, -⟩ := store_inv hstore
    obtain ⟨parent, htip, -, -, hend⟩ := tip_of_writable (namesEntry_join hname path) hwritable
    obtain ⟨-, -, links, hfront⟩ := tip_eq_ok_iff.mp htip
    rw [hstart hname] at hfront
    cases hfront
    rcases hend with ⟨target, hlink⟩ | ⟨rfl, -⟩
    · rw [hnothing] at hlink
      cases hlink
    · exact hlost hhere

end Disk

theorem faultsOf_ne_nil {failure : Failure} (hfailure : IsFault failure)
    (source target : String) : DiskM.faultsOf source target failure ≠ [] := by
  cases failure with
  | copyFaults faults =>
      rw [DiskM.faultsOf]
      rintro rfl
      exact hfailure.telling rfl
  | sameFile shown other =>
      have hmessage : (Failure.sameFile shown other).message =
          shown ++ " and " ++ Text.quoted other ++ " are the same file" := rfl
      simp only [DiskM.faultsOf]
      rw [hmessage, ne_eq, List.map_eq_nil_iff, String.toList_append, List.append_eq_nil_iff]
      rintro ⟨-, hnil⟩
      simp at hnil
  | _ => exact List.cons_ne_nil _ _

section

variable {d d' : Disk} {source target : String} {levels : Nat} {existOk : Bool}
  (hproper : d.tree.Proper) (hsource : Disk.hasNul source = false)
  (htarget : Disk.hasNul target = false)

include hproper hsource htarget

/-- The end of a copy sets the status, and succeeds only if there was no fault before. -/
theorem finishCopy_cases {faults : List CopyFault} {result : Except Failure Unit}
    (hrun : (DiskM.finishCopy source target faults).run d = (result, d')) :
    ∃ status, (DiskM.copyStatus source target).run d = (status, d') ∧
      (result = .ok () → faults = [] ∧ status = .ok ()) := by
  unfold DiskM.finishCopy at hrun
  rw [run_bind, DiskM.run_collect] at hrun
  rcases hcopy : (DiskM.copyStatus source target).run d with ⟨failure | _, t⟩
  · have hends : EndsWith d.GrownFrom (fun _ => True) IsFault
        (DiskM.copyStatus source target) := endsWith_copyStatus hsource htarget
    have hfault := hends.failure (.self hproper) hcopy
    have hsystem : failure.isSystem = true := hfault.reported
    have hfaults := faultsOf_ne_nil hfault source target
    have hnever : (!(faults ++ DiskM.faultsOf source target failure).isEmpty) = true := by
      simp [hfaults]
    rw [hcopy] at hrun
    dsimp only at hrun
    rw [hsystem, if_pos rfl] at hrun
    dsimp only at hrun
    rw [hnever, if_pos rfl] at hrun
    cases hrun
    refine ⟨_, rfl, ?_⟩
    rintro ⟨⟩
  · rw [hcopy] at hrun
    dsimp only at hrun
    rw [List.append_nil] at hrun
    split at hrun
    · cases hrun
      refine ⟨_, rfl, ?_⟩
      rintro ⟨⟩
    · next hnone =>
        cases hrun
        exact ⟨_, rfl, fun _ => ⟨by simpa using hnone, rfl⟩⟩

end

section

variable {d d' : Disk} {source target : String} {levels : Nat} {existOk : Bool}

/-- Nothing is copied to a path that is sealed. -/
theorem copyEntry_of_sealed {name : String} {entry : Node} {result : Except Failure Unit}
    (htrees : ∀ {source target : String} {result : Except Failure Unit} {d' : Disk},
      Disk.hasNul source = false → Disk.hasNul target = false → d.NoRoom target →
        d.isDirectory target = false →
          (DiskM.copyTreeFrom levels existOk source target).run d = (result, d') → d' = d)
    (hsource : Disk.hasNul source = false) (htarget : Disk.hasNul target = false)
    (hname : IsAccepted name) (hsealed : d.Sealed target)
    (hrun : (DiskM.copyEntry levels existOk source target name entry).run d = (result, d')) :
    d' = d := by
  have hfile : ∀ {result : Except Failure Unit} {d' : Disk},
      (DiskM.copyFile (.ofEntry source name) (Path.join target name)).run d = (result, d') →
        d' = d := by
    intro result d' hrun
    rcases DiskM.copyFile_cases (hsealed.no_directory hname.toIsName) hrun with
      ⟨rfl, -⟩ | ⟨data, t, -, -, hstore, -⟩
    · rfl
    · exact absurd hstore (hsealed.no_file hname.toIsName)
  cases entry with
  | dir es modified =>
      exact htrees (hasNul_join hsource hname.hasNul) (hasNul_join htarget hname.hasNul)
        (hsealed.no_room hname.toIsName) (hsealed.no_directory hname.toIsName) hrun
  | link linked =>
      rcases run_bind_of_unchanged (respects_ask isFrame_eq _ _) hrun with
        ⟨rfl, -⟩ | ⟨linked, -, hrun⟩
      · rfl
      · rw [run_change₂] at hrun
        split at hrun
        · cases hrun
          rfl
        · cases hmake : d.makeLink linked (Path.join target name) with
          | ok t => exact absurd hmake (hsealed.no_link hname.toIsName)
          | error code =>
              rw [hmake] at hrun
              cases hrun
              rfl
  | file data executable modified => exact hfile hrun
  | pipe => exact hfile hrun
  | null => exact hfile hrun

theorem copyEntries_of_sealed {entries : Node.Entries} {faults : List CopyFault}
    {result : Except Failure (List CopyFault)}
    (htrees : ∀ {source target : String} {result : Except Failure Unit} {d' : Disk},
      Disk.hasNul source = false → Disk.hasNul target = false → d.NoRoom target →
        d.isDirectory target = false →
          (DiskM.copyTreeFrom levels existOk source target).run d = (result, d') → d' = d)
    (hsource : Disk.hasNul source = false) (htarget : Disk.hasNul target = false)
    (hentries : ∀ entry ∈ entries, IsAccepted entry.1) (hsealed : d.Sealed target)
    (hrun : (DiskM.copyEntries levels existOk source target faults entries).run d =
      (result, d')) : d' = d := by
  induction entries generalizing faults with
  | nil =>
      cases hrun
      rfl
  | cons entry entries ih =>
      obtain ⟨name, node⟩ := entry
      have htail : ∀ other ∈ entries, IsAccepted other.1 := fun other hother =>
        hentries other (List.mem_cons_of_mem _ hother)
      rw [DiskM.run_copyEntries_cons] at hrun
      rcases hcopy : (DiskM.copyEntry levels existOk source target name node).run d with
        ⟨failure | _, t⟩
      · have hsame := copyEntry_of_sealed htrees hsource htarget
          (hentries (name, node) List.mem_cons_self) hsealed hcopy
        subst t
        rw [hcopy] at hrun
        dsimp only at hrun
        split at hrun
        · exact ih htail hrun
        · cases hrun
          rfl
      · have hsame := copyEntry_of_sealed htrees hsource htarget
          (hentries (name, node) List.mem_cons_self) hsealed hcopy
        subst t
        rw [hcopy] at hrun
        exact ih htail hrun

/-- Nothing is copied into a directory that is shut off, and the copy fails. -/
theorem copyInto_of_shut {entries : Node.Entries} {result : Except Failure Unit}
    (htrees : ∀ {source target : String} {result : Except Failure Unit} {d' : Disk},
      Disk.hasNul source = false → Disk.hasNul target = false → d.NoRoom target →
        d.isDirectory target = false →
          (DiskM.copyTreeFrom levels existOk source target).run d = (result, d') → d' = d)
    (hproper : d.tree.Proper) (hsource : Disk.hasNul source = false)
    (htarget : Disk.hasNul target = false) (hentries : ∀ entry ∈ entries, IsAccepted entry.1)
    (hroom : d.NoRoom target) (hshut : d.Shut target)
    (hrun : (DiskM.copyInto levels existOk source target entries).run d = (result, d')) :
    d' = d ∧ ∃ failure, result = .error failure := by
  unfold DiskM.copyInto at hrun
  rw [run_bind] at hrun
  rcases hcopies : (DiskM.copyEntries levels existOk source target [] entries).run d with
    ⟨failure | faults, t⟩
  · have hsame := copyEntries_of_sealed htrees hsource htarget hentries (hroom.sealed hshut) hcopies
    rw [hcopies] at hrun
    cases hrun
    exact ⟨hsame, _, rfl⟩
  · have hsame := copyEntries_of_sealed htrees hsource htarget hentries (hroom.sealed hshut) hcopies
    rw [hcopies] at hrun
    subst t
    obtain ⟨status, hstatus, hok⟩ := finishCopy_cases hproper hsource htarget hrun
    rcases DiskM.copyStatus_cases hstatus with ⟨rfl, failure, rfl⟩ | ⟨-, there, found, -, hset⟩
    · cases result with
      | ok _ => cases (hok rfl).2
      | error failure => exact ⟨rfl, _, rfl⟩
    · obtain ⟨other, target', hfound, -⟩ := Disk.copyStatus_inv hset
      exact absurd hfound hshut.status_ne_ok

/-- A copy to a path with something in the way fails and changes nothing, unless there is a directory
already. -/
theorem copyTreeFrom_of_noRoom {result : Except Failure Unit} (hproper : d.tree.Proper)
    (hsource : Disk.hasNul source = false) (htarget : Disk.hasNul target = false)
    (hroom : d.NoRoom target) (hfree : d.isDirectory target = false)
    (hrun : (DiskM.copyTreeFrom levels existOk source target).run d = (result, d')) :
    d' = d ∧ ∃ failure, result = .error failure := by
  induction levels generalizing source target d' result with
  | zero =>
      rw [DiskM.copyTreeFrom_zero] at hrun
      cases hrun
      exact ⟨rfl, _, rfl⟩
  | succ levels ih =>
      rw [DiskM.copyTreeFrom_succ] at hrun
      rcases run_bind_of_unchanged (respects_ask isFrame_eq _ _) hrun with
        hfailed | ⟨⟨place, node⟩, hstatus, hrun⟩
      · exact hfailed
      dsimp only at hrun
      split at hrun
      · cases hrun
        exact ⟨rfl, _, rfl⟩
      rw [run_bind] at hrun
      rcases hmade : (DiskM.makeDirectories existOk target).run d with ⟨failure | _, t⟩
      · obtain ⟨rfl, -⟩ := makeDirectoriesFrom_of_noRoom htarget hroom (Nat.lt_succ_self _) hmade
        rw [hmade] at hrun
        cases hrun
        exact ⟨rfl, _, rfl⟩
      · obtain ⟨rfl, hok, -⟩ := makeDirectoriesFrom_of_noRoom htarget hroom (Nat.lt_succ_self _) hmade
        have hshut : t.Shut target := by
          refine (hok rfl).resolve_left fun hthere => ?_
          rw [hfree] at hthere
          cases hthere.2
        rw [hmade] at hrun
        exact copyInto_of_shut (fun hs ht hr hf hrun => (ih hs ht hr hf hrun).1) hproper hsource
          htarget (isAccepted_of_mem_entries hproper (DiskM.ask_eq_ok hstatus)) hroom hshut hrun

end

end BuildRunner
