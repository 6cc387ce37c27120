import BuildRunner.Proofs.Execution.Beginning

/-!
# Putting the current directory back

A run keeps the path of the directory that it was started in, and goes back there when its wait is
over.  As long as that directory stands, its path leads there from anywhere, unless the path is
longer than the system accepts.  A run that is over with its first turn has never left.
-/

namespace BuildRunner

variable {κ : Type}

/-- Every directory of a tree is one of another tree. -/
def Node.KeepsDirectories (tree tree' : Node) : Prop :=
  ∀ location, tree.kindAt location = some .directory → tree'.kindAt location = some .directory

theorem Node.KeepsDirectories.refl (tree : Node) : tree.KeepsDirectories tree := fun _ h => h

theorem Node.KeepsDirectories.trans {t u v : Node} (h : t.KeepsDirectories u)
    (h' : u.KeepsDirectories v) : t.KeepsDirectories v := fun location hdir =>
  h' location (h location hdir)

theorem Place.Stands.of_keeps {tree tree' : Node} {place : Place} (hplace : place.Stands tree)
    (hkeeps : tree.KeepsDirectories tree') : place.Stands tree' :=
  ⟨hplace.here, hkeeps _ hplace.found, hplace.accepted⟩

/-- Different places in the tree have different paths. -/
theorem Place.Stands.eq_of_path {tree : Node} {place other : Place} (hplace : place.Stands tree)
    (hother : other.Stands tree) (hpath : place.path? = other.path?) : place = other := by
  rw [Place.path?_eq hplace.here, Place.path?_eq hother.here, Option.some.injEq] at hpath
  have hnames := congrArg pathNames hpath
  rw [pathNames_path hplace.accepted, pathNames_path hother.accepted] at hnames
  obtain ⟨base, lost⟩ := place
  obtain ⟨base', lost'⟩ := other
  have hlost := hplace.here
  have hlost' := hother.here
  dsimp only at hlost hlost' hnames
  rw [hlost, hlost', hnames]

theorem Place.hasNul_path {place : Place} (hhere : place.lost = [])
    (hnames : ∀ name ∈ place.base, '\x00' ∉ name.toList) {path : String}
    (hpath : place.path? = some path) : Disk.hasNul path = false := by
  rw [Place.path?_eq hhere, Option.some.injEq] at hpath
  have hjoined : ∀ names : List String, (∀ name ∈ names, '\x00' ∉ name.toList) →
      '\x00' ∉ (String.intercalate "/" names).toList := by
    intro names
    induction names with
    | nil => simp
    | cons name names ih =>
        intro hnames
        cases names with
        | nil => simpa using hnames
        | cons next names =>
            rw [String.intercalate_cons_cons, String.toList_append, String.toList_append]
            have hname := hnames name (by simp)
            have hrest := ih fun n hn => hnames n (List.mem_cons_of_mem name hn)
            rw [List.mem_append, List.mem_append]
            rintro ((hfirst | hslash) | hlast)
            · exact hname hfirst
            · simp at hslash
            · exact hrest hlast
  have hbase := hjoined place.base hnames
  rw [Disk.hasNul, ← hpath, List.contains_eq_mem, decide_eq_false_iff_not, String.toList_append]
  simpa using hbase

theorem Place.Stands.hasNul_path {tree : Node} {place : Place} (hplace : place.Stands tree)
    {path : String} (hpath : place.path? = some path) : Disk.hasNul path = false :=
  Place.hasNul_path hplace.here (fun name hname => (hplace.accepted name hname).no_nul) hpath

namespace Disk

theorem currentPath_eq_ok {d : Disk} {path : String} :
    d.currentPath = .ok path ↔ d.cwd.path? = some path := by
  unfold currentPath
  cases d.cwd.path? with
  | none => simp
  | some found => simp

theorem tree_backAt (d : Disk) (saved : String) : (d.backAt saved).tree = d.tree := by
  have hchange : Respects Moves (DiskM.change saved fun d => d.changeDirectory saved) :=
    respects_change isFrame_moves saved fun _ _ _ => moves_of_changeDirectory
  unfold backAt
  split
  · split
    · rfl
    · exact (hchange d).tree
  · rfl

/-- There is no way back by a path that is too long. -/
theorem backAt_of_long {saved : String} (hlong : pathLimit ≤ saved.utf8ByteSize) (d : Disk) :
    d.backAt saved = d := by
  have hchange : stateAfter (DiskM.change saved fun d => d.changeDirectory saved) d = d := by
    rw [stateAfter_change, changeDirectory, locate_of_long hlong]
    split
    · rfl
    · rfl
  unfold backAt
  split
  · rw [hchange, ite_self]
  · rfl

/-- The directory that was left is current again. -/
theorem cwd_backAt {place : Place} {saved : String} {d : Disk} (hplace : place.Stands d.tree)
    (hhere : d.cwd.Stands d.tree) (hsaved : place.path? = some saved)
    (hshort : saved.utf8ByteSize < pathLimit) : (d.backAt saved).cwd = place := by
  obtain ⟨path, hpath⟩ : ∃ path, d.cwd.path? = some path := ⟨_, Place.path?_eq hhere.here⟩
  rw [backAt, currentPath_eq_ok.mpr hpath]
  dsimp only
  split
  · next hsame =>
      refine hhere.eq_of_path hplace ?_
      rw [hpath, hsaved, hsame]
  · have hlocate := locate_path hplace d.cwd hsaved hshort
    rw [stateAfter_change, hplace.hasNul_path hsaved, changeDirectory, locate, hlocate]
    rfl

/-- The removal of files does not move the current directory away from where it stands. -/
theorem cwd_without {d : Disk} (paths : List String)
    (hkept : (d.without paths).tree.kindAt d.cwd.base = some .directory) :
    (d.without paths).cwd = d.cwd := by
  rcases (fades_without paths d).current with hsame | hgone
  · exact hsame
  · exact absurd hkept hgone

end Disk

/-- A run that is over with its first turn has not left the directory. -/
theorem Over.cwd {call : Call} {m m' : Machine κ} (hover : Over call m m')
    (hkept : m'.disk.tree.kindAt m.disk.cwd.base = some .directory) :
    m'.disk.cwd = m.disk.cwd := by
  obtain ⟨d, hopens, hdisk⟩ := hover.disk
  rw [hdisk] at hkept ⊢
  rw [← hopens.current] at hkept ⊢
  exact Disk.cwd_without _ hkept

/-- A run that has waited is back in the directory that it kept the path of. -/
theorem Ends.cwd {waiting : Waiting} {place : Place} {m m' : Machine κ} (hends : Ends waiting m m')
    (hplace : place.Stands m.disk.tree) (hhere : m.disk.cwd.Stands m.disk.tree)
    (hsaved : place.path? = some waiting.saved) (hshort : waiting.saved.utf8ByteSize < pathLimit)
    (hkept : m'.disk.tree.kindAt place.base = some .directory) : m'.disk.cwd = place := by
  have hback := Disk.cwd_backAt hplace hhere hsaved hshort
  rw [hends.disk] at hkept ⊢
  rw [← hback] at hkept
  rw [Disk.cwd_without _ hkept, hback]

end BuildRunner
