import BuildRunner.Proofs.Disk.NamedFile

/-!
# Opening files for writing

Opening a file for writing makes an empty file where there is nothing, and moves nothing else: all
entries that were there stay of their kind, and so does the current directory.  A path that named no
entry names the new file afterwards.
-/

namespace BuildRunner

namespace Node

/-- Files have been added where there was nothing. -/
def GainsFiles (tree tree' : Node) : Prop :=
  ∀ location, tree'.kindAt location = tree.kindAt location ∨
    (tree.kindAt location = none ∧ tree'.kindAt location = some .file)

theorem GainsFiles.refl (tree : Node) : tree.GainsFiles tree := fun _ => Or.inl rfl

theorem GainsFiles.trans {t u v : Node} (h : t.GainsFiles u) (h' : u.GainsFiles v) :
    t.GainsFiles v := by
  intro location
  rcases h location with hsame | ⟨hnone, hfile⟩
  · rw [← hsame]
    exact h' location
  · rcases h' location with hsame | ⟨hnone', -⟩
    · exact Or.inr ⟨hnone, hsame.trans hfile⟩
    · simp [hfile] at hnone'

theorem GainsFiles.keepsWays {tree tree' : Node} (hgains : tree.GainsFiles tree') :
    tree.KeepsWays tree' := by
  intro location kind _ hkind
  rcases hgains location with hsame | ⟨hnone, -⟩
  · exact hsame.trans hkind
  · simp [hnone] at hkind

theorem GainsFiles.keepsWays_back {tree tree' : Node} (hgains : tree.GainsFiles tree') :
    tree'.KeepsWays tree := by
  intro location kind hway hkind
  rcases hgains location with hsame | ⟨-, hfile⟩
  · exact hsame.symm.trans hkind
  · rw [hfile, Option.some.injEq] at hkind
    subst hkind
    exact absurd hway (by simp [Kind.IsWay])

theorem gainsFiles_put {tree : Node} {parent : Location} {name : String} {node : Node}
    (hnode : node.kind = .file) (hfree : tree.kindAt (parent ++ [name]) = none) :
    tree.GainsFiles (tree.put parent name node) := by
  have hentries : node.entries = [] := by
    cases node with
    | file data executable modified => rfl
    | _ => simp [kind] at hnode
  intro location
  rw [kindAt_put tree parent name hentries hfree]
  split
  · next hnew => exact Or.inr ⟨hnew.1 ▸ hfree, by rw [hnode]⟩
  · exact Or.inl rfl

theorem keepsWays_put {tree : Node} {parent : Location} {name : String} {node : Node}
    (hnode : node.entries = []) (hfree : tree.kindAt (parent ++ [name]) = none) :
    tree.KeepsWays (tree.put parent name node) := by
  intro location kind _ hkind
  rw [kindAt_put tree parent name hnode hfree, if_neg]
  · exact hkind
  · rintro ⟨rfl, -⟩
    simp [hfree] at hkind

theorem gainsFiles_withData (tree : Node) (data : Text.Bytes) (location : Location) :
    tree.GainsFiles (tree.modify (withData data) location) := by
  intro other
  refine Or.inl (kindAt_modify (fun node => ?_) (fun node => ?_) _ _ _)
  · cases node <;> rfl
  · cases node <;> rfl

end Node

namespace Disk

/-- Files have been added and opened; nothing else has happened to the tree. -/
structure Opens (d d' : Disk) : Prop where
  tree : d.tree.GainsFiles d'.tree
  current : d'.cwd = d.cwd
  files : d.files.length ≤ d'.files.length

end Disk

theorem isFrame_opens : IsFrame Disk.Opens where
  refl _ := ⟨Node.GainsFiles.refl _, rfl, Nat.le_refl _⟩
  trans h h' := ⟨h.tree.trans h'.tree, h'.current.trans h.current, h.files.trans h'.files⟩

namespace Disk

theorem kindAt_of_lookup_none {tree : Node} {parent : Place} {name : String}
    (hlost : parent.lost = []) (hentry : (parent.entries tree).lookup name = none) :
    tree.kindAt (parent.base ++ [name]) = none := by
  have hkind := Place.kindOf_eq tree parent name
  rw [if_pos hlost, Place.kindOf, hentry] at hkind
  exact hkind.symm

theorem create_inv {d d' : Disk} {parent : Place} {name : String} {node : Node}
    (hcreate : d.create parent name node = .ok d') :
    parent.lost = [] ∧ d' = { d with tree := d.tree.put parent.base name node } := by
  unfold create at hcreate
  split at hcreate
  · next hlost =>
      simp only [Except.ok.injEq] at hcreate
      exact ⟨by simpa using hlost, hcreate.symm⟩
  · simp at hcreate

/-- Opening a file takes the next index. -/
theorem openFile_inv {d d' : Disk} {append : Bool} {path : String} {index : Nat}
    (hopen : d.openFile append path = .ok (d', index)) :
    index = d.files.length ∧ d'.files.length = d.files.length + 1 ∧ d.Opens d' := by
  unfold openFile at hopen
  cases hwritable : writable d.tree d.cwd path with
  | error code => simp [hwritable, bind, Except.bind] at hopen
  | ok found =>
      obtain ⟨parent, name⟩ := found
      simp only [hwritable, bind, Except.bind] at hopen
      cases hentry : (parent.entries d.tree).lookup name with
      | none =>
          simp only [hentry] at hopen
          cases hcreate : d.create parent name (.file [] false none) with
          | error code => simp [hcreate] at hopen
          | ok made =>
              obtain ⟨hlost, rfl⟩ := create_inv hcreate
              simp only [hcreate, Except.ok.injEq, Prod.mk.injEq] at hopen
              obtain ⟨rfl, rfl⟩ := hopen
              refine ⟨rfl, by simp, ?_, rfl, by simp⟩
              exact Node.gainsFiles_put rfl (kindAt_of_lookup_none hlost hentry)
      | some node =>
          simp only [hentry] at hopen
          cases node with
          | file data executable modified =>
              cases append with
              | true =>
                  simp only [if_true, Except.ok.injEq, Prod.mk.injEq] at hopen
                  obtain ⟨rfl, rfl⟩ := hopen
                  exact ⟨rfl, by simp, Node.GainsFiles.refl _, rfl, by simp⟩
              | false =>
                  simp only [Bool.false_eq_true, if_false, Except.ok.injEq, Prod.mk.injEq] at hopen
                  obtain ⟨rfl, rfl⟩ := hopen
                  exact ⟨rfl, by simp, Node.gainsFiles_withData _ _ _, rfl, by simp⟩
          | _ =>
              simp only [Except.ok.injEq, Prod.mk.injEq] at hopen
              obtain ⟨rfl, rfl⟩ := hopen
              exact ⟨rfl, by simp, Node.GainsFiles.refl _, rfl, by simp⟩

/-! ## Naming the new file -/

/-- A path that opens for writing has its entry at its tip, unless there is a link. -/
theorem tip_of_writable {d : Disk} {path name : String} (hpath : NamesEntry path name)
    {place : Place} {last : String} (hwritable : writable d.tree d.cwd path = .ok (place, last)) :
    ∃ parent, d.tip path = .ok (parent, .name name false) ∧ name.utf8ByteSize ≤ greatestName ∧
      parent.kindOf d.tree name ≠ some .directory ∧
        ((∃ target, (parent.entries d.tree).lookup name = some (.link target)) ∨
          (place = parent ∧ last = name)) := by
  unfold writable at hwritable
  rw [tip_eq d hpath]
  cases hcheck : checkPath path with
  | error code => simp [hcheck, bind, Except.bind] at hwritable
  | ok _ =>
      rw [hcheck] at hwritable
      change writableFrom d.tree (linkLimit + 1) linkLimit _ _ _ = _ at hwritable
      rw [writableFrom, hpath.last, hpath.no_slash] at hwritable
      cases henter : enter d.tree linkLimit (startPlace d.cwd path) (pathNames path).dropLast with
      | error code => simp [henter, bind, Except.bind] at hwritable
      | ok found =>
          have hproper : ¬(name = "." ∨ name = ".." ∨ false = true) := by
            simp [hpath.ne_dot, hpath.ne_dotdot]
          simp only [henter, bind, Except.bind, if_neg hproper] at hwritable
          refine ⟨found.1, rfl, ?_⟩
          split at hwritable
          · simp at hwritable
          · next hlong =>
              refine ⟨Nat.not_lt.mp hlong, ?_⟩
              rw [Place.kindOf]
              cases hentry : (found.1.entries d.tree).lookup name with
              | none =>
                  simp only [hentry, Except.ok.injEq, Prod.mk.injEq] at hwritable
                  exact ⟨by simp, Or.inr ⟨hwritable.1.symm, hwritable.2.symm⟩⟩
              | some node =>
                  cases node with
                  | link target => exact ⟨by simp [Node.kind], Or.inl ⟨target, rfl⟩⟩
                  | dir es modified => simp [hentry] at hwritable
                  | _ =>
                      simp only [hentry, Except.ok.injEq, Prod.mk.injEq] at hwritable
                      exact ⟨by simp [Node.kind], Or.inr ⟨hwritable.1.symm, hwritable.2.symm⟩⟩

/-- What a path names is found for writing if it is a file or nothing. -/
theorem Names.exists_writable {d : Disk} {path : String} {location : Location}
    (hnames : d.Names path location)
    (hfile : d.tree.kindAt location = some .file ∨ d.tree.kindAt location = none) :
    ∃ base name, location = base ++ [name] ∧
      writable d.tree d.cwd path = .ok (⟨base, []⟩, name) := by
  obtain ⟨-, ⟨base, lost⟩, name, rfl, rfl, hshort, hpath, htip⟩ := hnames
  obtain ⟨hcheck, -, left, henter⟩ := tip_eq_ok_iff.mp htip
  have hproper : ¬(name = "." ∨ name = ".." ∨ false = true) := by
    simp [hpath.ne_dot, hpath.ne_dotdot]
  have hlookup := @Place.lookup_entries d.tree ⟨base, []⟩ rfl name
  refine ⟨base, name, rfl, ?_⟩
  unfold writable
  rw [hcheck]
  change writableFrom d.tree (linkLimit + 1) linkLimit _ _ _ = _
  rw [writableFrom, hpath.last, hpath.no_slash, henter]
  simp only [bind, Except.bind, if_neg hproper, if_neg (Nat.not_lt.mpr hshort), hlookup]
  rcases hfile with hfile | hnone
  · obtain ⟨node, hnode, hkind⟩ := Option.map_eq_some_iff.mp hfile
    rw [hnode]
    cases node with
    | file data executable modified => rfl
    | _ => simp [Node.kind] at hkind
  · rw [Option.map_eq_none_iff.mp hnone]

/-- What a path names can be opened for writing if it is a file or nothing. -/
theorem Names.exists_openFile {d : Disk} {path : String} {location : Location}
    (hnames : d.Names path location)
    (hfile : d.tree.kindAt location = some .file ∨ d.tree.kindAt location = none) (append : Bool) :
    ∃ d' index, d.openFile append path = .ok (d', index) := by
  obtain ⟨base, name, rfl, hwritable⟩ := hnames.exists_writable hfile
  have hlookup := @Place.lookup_entries d.tree ⟨base, []⟩ rfl name
  unfold openFile
  rw [hwritable]
  simp only [bind, Except.bind, hlookup]
  rcases hfile with hfile | hnone
  · obtain ⟨node, hnode, hkind⟩ := Option.map_eq_some_iff.mp hfile
    rw [hnode]
    cases node with
    | file data executable modified =>
        cases append with
        | _ => exact ⟨_, _, rfl⟩
    | _ => simp [Node.kind] at hkind
  · rw [Option.map_eq_none_iff.mp hnone]
    exact ⟨_, _, rfl⟩

/-- Where a path names nothing, a file is made and opened. -/
theorem Names.openFile_of_free {d : Disk} {path : String} {location : Location}
    (hnames : d.Names path location) (hfree : d.tree.kindAt location = none) (append : Bool) :
    ∃ base name, location = base ++ [name] ∧
      d.openFile append path = .ok ({ d with
        tree := d.tree.put base name (.file [] false none)
        files := d.files ++ [⟨some location, 0, append⟩] }, d.files.length) := by
  obtain ⟨base, name, rfl, hwritable⟩ := hnames.exists_writable (Or.inr hfree)
  have hlookup := @Place.lookup_entries d.tree ⟨base, []⟩ rfl name
  refine ⟨base, name, rfl, ?_⟩
  unfold openFile
  rw [hwritable]
  simp only [bind, Except.bind, hlookup]
  rw [Option.map_eq_none_iff.mp hfree]
  rfl

/-- A path that opens for writing ends in a name. -/
theorem namesEntry_of_writable {tree : Node} {here : Place} {path : String}
    {found : Place × String} (hwritable : writable tree here path = .ok found) :
    ∃ name, NamesEntry path name := by
  unfold writable at hwritable
  cases hcheck : checkPath path with
  | error code => simp [hcheck, bind, Except.bind] at hwritable
  | ok _ =>
      rw [hcheck] at hwritable
      change writableFrom tree (linkLimit + 1) linkLimit _ _ _ = _ at hwritable
      rw [writableFrom] at hwritable
      cases henter : enter tree linkLimit (startPlace here path) (pathNames path).dropLast with
      | error code => simp [henter, bind, Except.bind] at hwritable
      | ok _ =>
          cases hlast : (pathNames path).getLast? with
          | none => simp [henter, hlast, bind, Except.bind] at hwritable
          | some name =>
              simp only [henter, hlast, bind, Except.bind] at hwritable
              split at hwritable
              · cases hwritable
              · next hproper =>
                  simp only [not_or] at hproper
                  exact ⟨name, hlast, hproper.1, hproper.2.1, by simpa using hproper.2.2⟩

theorem kindAt_of_lookup_some {tree : Node} {parent : Place} {name : String} {node : Node}
    (hentry : (parent.entries tree).lookup name = some node) :
    parent.lost = [] ∧ tree.kindAt (parent.base ++ [name]) = some node.kind := by
  have hkind := Place.kindOf_eq tree parent name
  rw [Place.kindOf, hentry, Option.map_some] at hkind
  split at hkind
  · next hlost => exact ⟨hlost, hkind.symm⟩
  · simp at hkind

end Disk

/-! ## Directories on the way -/

theorem kindAt_root {tree : Node} {location : Location}
    (hdir : tree.kindAt location = some .directory) : tree.kindAt [] = some .directory :=
  kindAt_directory_of_prefix (a := []) hdir

theorem kindAt_dropLast {tree : Node} {location : Location}
    (hdir : tree.kindAt location = some .directory) :
    tree.kindAt location.dropLast = some .directory := by
  rcases List.eq_nil_or_concat location with rfl | ⟨front, name, rfl⟩
  · exact hdir
  · rw [List.concat_eq_append] at hdir ⊢
    rw [List.dropLast_concat]
    exact kindAt_directory_of_prefix hdir

/-- What is kept on the way up, and on the way down into a directory, is kept by a descent. -/
theorem keeps_descend {P : Place → Prop} {tree : Node} (hup : ∀ {place}, P place → P place.up)
    (hdown : ∀ {place name}, P place → place.kindOf tree name = some .directory →
      P (place.down name)) {place : Place} (hplace : P place) (names : List String) :
    match descend tree place names with
    | .arrived there => P there
    | .link parent _ _ => P parent
    | .refused _ => True := by
  induction names generalizing place with
  | nil => exact hplace
  | cons name rest ih =>
      rw [descend_cons]
      split_ifs with hdot hdots hlong
      · exact ih hplace
      · exact ih (hup hplace)
      · trivial
      · cases hkind : place.kindOf tree name with
        | none => trivial
        | some kind =>
            cases kind with
            | directory => exact ih (hdown hplace hkind)
            | link target => exact hplace
            | _ => trivial

/-- What holds at the root as well is kept behind links. -/
theorem keeps_enter {P : Place → Prop} {tree : Node} (hroot : P .root)
    (hup : ∀ {place}, P place → P place.up)
    (hdown : ∀ {place name}, P place → place.kindOf tree name = some .directory →
      P (place.down name)) {links : Nat} {place : Place} {names : List String}
    {found : Place × Nat} (hplace : P place) (hfound : enter tree links place names = .ok found) :
    P found.1 := by
  induction links generalizing place names with
  | zero =>
      have hdescend := @keeps_descend P tree hup hdown place hplace names
      unfold enter at hfound
      cases hstop : descend tree place names with
      | arrived there =>
          rw [hstop] at hfound hdescend
          simp only [Except.ok.injEq] at hfound
          subst found
          exact hdescend
      | refused code => simp [hstop] at hfound
      | link parent target rest => simp [hstop] at hfound
  | succ links ih =>
      have hdescend := @keeps_descend P tree hup hdown place hplace names
      unfold enter at hfound
      cases hstop : descend tree place names with
      | arrived there =>
          rw [hstop] at hfound hdescend
          simp only [Except.ok.injEq] at hfound
          subst found
          exact hdescend
      | refused code => simp [hstop] at hfound
      | link parent target rest =>
          rw [hstop] at hfound hdescend
          refine ih ?_ hfound
          unfold startPlace
          split
          · exact hroot
          · exact hdescend

/-- A look-up from a directory that stands passes through directories that stand. -/
theorem kindAt_of_enter {tree : Node} {links : Nat} {place : Place} {names : List String}
    {found : Place × Nat} (hplace : tree.kindAt place.base = some .directory)
    (hfound : enter tree links place names = .ok found) :
    tree.kindAt found.1.base = some .directory := by
  refine @keeps_enter (fun place => tree.kindAt place.base = some .directory) tree
    (kindAt_root hplace) (fun {place} hdir => ?_) (fun {place name} _ hkind => ?_) _ _ _ _ hplace
    hfound
  · unfold Place.up
    split
    · exact kindAt_dropLast hdir
    · exact hdir
  · rw [Place.kindOf_eq] at hkind
    split at hkind
    · exact hkind
    · simp at hkind

/-- Nothing is lost on the way of a look-up from a directory that is still there. -/
theorem lost_of_enter {tree : Node} {links : Nat} {place : Place} {names : List String}
    {found : Place × Nat} (hplace : place.lost = [])
    (hfound : enter tree links place names = .ok found) : found.1.lost = [] := by
  refine @keeps_enter (fun place => place.lost = []) tree rfl (fun {place} hhere => ?_)
    (fun hhere _ => hhere) _ _ _ _ hplace hfound
  unfold Place.up
  rw [hhere]

namespace Disk

theorem kindAt_of_tip {d : Disk} {path : String}
    (hcwd : d.tree.kindAt d.cwd.base = some .directory) {parent : Place} {tip : Tip}
    (htip : d.tip path = .ok (parent, tip)) :
    d.tree.kindAt parent.base = some .directory := by
  obtain ⟨-, -, left, henter⟩ := tip_eq_ok_iff.mp htip
  have hstart : d.tree.kindAt (startPlace d.cwd path).base = some .directory := by
    unfold startPlace
    split
    · exact kindAt_root hcwd
    · exact hcwd
  exact kindAt_of_enter hstart henter

/-- What a path names is a file, or is not there. -/
def IsPlain (d : Disk) (path : String) : Prop :=
  ∀ location, d.Names path location →
    d.tree.kindAt location = some .file ∨ d.tree.kindAt location = none

theorem IsPlain.of_opens {d d' : Disk} {path : String} (hplain : d.IsPlain path)
    (hopens : d.Opens d') : d'.IsPlain path := by
  intro location hnames
  have hbefore := hplain location (hnames.of_keeps hopens.tree.keepsWays_back hopens.current.symm)
  rcases hopens.tree location with hsame | ⟨-, hfile⟩
  · rw [hsame]
    exact hbefore
  · exact Or.inl hfile

theorem HasFile.of_opens {d d' : Disk} {path : String} {location : Location}
    (hfile : d.HasFile path location) (hopens : d.Opens d') : d'.HasFile path location := by
  refine ⟨hfile.toNames.of_keeps hopens.tree.keepsWays hopens.current, ?_⟩
  rcases hopens.tree location with hsame | ⟨-, hnew⟩
  · exact hsame.trans hfile.file
  · exact hnew

/-- A path that has been opened names a file. -/
theorem hasFile_of_openFile {d d' : Disk} {path name : String} {index : Nat}
    (hpath : NamesEntry path name) (hnul : hasNul path = false)
    (hcwd : d.tree.kindAt d.cwd.base = some .directory) (hplain : d.IsPlain path)
    (hopen : d.openFile false path = .ok (d', index)) : ∃ location, d'.HasFile path location := by
  have hopens := (openFile_inv hopen).2.2
  unfold openFile at hopen
  cases hwritable : writable d.tree d.cwd path with
  | error code => simp [hwritable, bind, Except.bind] at hopen
  | ok found =>
      obtain ⟨place, last⟩ := found
      obtain ⟨parent, htip, hshort, -, hlast⟩ := tip_of_writable hpath hwritable
      have hnames : parent.lost = [] → d.Names path (parent.base ++ [name]) := fun hlost =>
        ⟨hnul, parent, name, rfl, hlost, hshort, hpath, htip⟩
      have hafter : ∀ (hlost : parent.lost = []),
          d'.tree.kindAt (parent.base ++ [name]) = some .file →
            ∃ location, d'.HasFile path location :=
        fun hlost hfile => ⟨parent.base ++ [name],
          (hnames hlost).of_keeps hopens.tree.keepsWays hopens.current, hfile⟩
      cases hentry : (parent.entries d.tree).lookup name with
      | some node =>
          obtain ⟨hlost, hkind⟩ := kindAt_of_lookup_some hentry
          rcases hplain _ (hnames hlost) with hfile | hnone
          · refine hafter hlost ?_
            rcases hopens.tree (parent.base ++ [name]) with hsame | ⟨hnone, -⟩
            · exact hsame.trans hfile
            · simp [hfile] at hnone
          · simp [hkind] at hnone
      | none =>
          rcases hlast with ⟨target, hlink⟩ | ⟨rfl, rfl⟩
          · simp [hentry] at hlink
          · simp only [hwritable, bind, Except.bind, hentry] at hopen
            cases hcreate : d.create place last (.file [] false none) with
            | error code => simp [hcreate] at hopen
            | ok made =>
                obtain ⟨hlost, rfl⟩ := create_inv hcreate
                simp only [hcreate, Except.ok.injEq, Prod.mk.injEq] at hopen
                obtain ⟨rfl, -⟩ := hopen
                refine hafter hlost ?_
                show (d.tree.put place.base last (.file [] false none)).kindAt _ = _
                rw [Node.kindAt_put _ _ _ rfl (kindAt_of_lookup_none hlost hentry),
                  if_pos ⟨rfl, kindAt_of_tip hcwd htip⟩]
                rfl

end Disk

end BuildRunner
