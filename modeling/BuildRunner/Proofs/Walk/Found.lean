import BuildRunner.Proofs.Disk.Removal
import BuildRunner.Proofs.Walk.Order
import BuildRunner.Proofs.Walk.Pruning

/-!
# What a search finds

The paths that a search finds are in the strict order of the ways below its start, all of whose
directories are proper ones.  Which paths they are is settled by the kinds of the entries alone, so
that the order in which a directory lists its entries makes no difference.
-/

namespace BuildRunner

open Path

variable {κ : Type}

/-! ## Trees with the same kinds of entries -/

/-- Both trees have entries of the same kinds, in whatever order they are listed. -/
def Node.SameKinds (tree tree' : Node) : Prop :=
  ∀ location, tree'.kindAt location = tree.kindAt location

namespace Node.SameKinds

variable {tree tree' : Node}

theorem symm (hsame : tree.SameKinds tree') : tree'.SameKinds tree :=
  fun location => (hsame location).symm

theorem prunes (hsame : tree.SameKinds tree') : tree.Prunes tree' :=
  fun location => Or.inr (hsame location)

end Node.SameKinds

namespace Disk

/-- Two disks that differ in the order of their listings, and in what the files hold. -/
structure ListsAlike (d d' : Disk) : Prop where
  kinds : d.tree.SameKinds d'.tree
  cwd : d'.cwd = d.cwd

theorem ListsAlike.symm {d d' : Disk} (halike : d.ListsAlike d') : d'.ListsAlike d :=
  ⟨halike.kinds.symm, halike.cwd.symm⟩

theorem ListsAlike.locate_directory {d d' : Disk} (halike : d.ListsAlike d') {follow : Bool}
    {path : String} {place : Place} (hfound : d.locate follow path = .ok (.directory place)) :
    d'.locate follow path = .ok (.directory place) :=
  locate_of_prunes halike.symm.kinds.prunes (by rw [halike.cwd]) hfound

theorem ListsAlike.isDirectory_of {d d' : Disk} (halike : d.ListsAlike d') {path : String}
    (hpath : d.isDirectory path = true) : d'.isDirectory path = true := by
  obtain ⟨place, hplace⟩ := exists_place_of_isDirectory hpath
  have hnul := hasNul_of_isDirectory hpath
  rw [isDirectory_iff, kindOf_eq _ hnul] at hpath ⊢
  rw [hplace] at hpath
  rw [halike.locate_directory hplace]
  simp only [Except.toOption, Option.bind_some, spotKind, Option.some.injEq, kind_nodeAt] at hpath ⊢
  rwa [halike.kinds place.base]

theorem ListsAlike.isDirectory {d d' : Disk} (halike : d.ListsAlike d') :
    d'.isDirectory = d.isDirectory := by
  funext path
  exact Bool.eq_iff_iff.mpr ⟨halike.symm.isDirectory_of, halike.isDirectory_of⟩

/-! ## Trails of a listing -/

theorem listing_inOrder {d : Disk} (hdistinct : d.tree.Distinct) (root : String) (place : Place) :
    InOrderEach (d.listing root place) := by
  apply Node.inOrderEach_listedEntries
  unfold Place.entries
  split
  · cases hget : d.tree.get? place.base with
    | none => trivial
    | some node => exact Node.distinct_entries (Node.distinct_of_get? hdistinct hget)
  · trivial

theorem trails_listing_inOrder {d : Disk} (hnames : d.tree.WellNamed)
    (hdistinct : d.tree.Distinct) (root : String) (place : Place) :
    (Listed.dir (d.listing root place)).trails.Pairwise fun t u => WayBefore t.way u.way :=
  Listed.trails_inOrder _ (wellNamedEach_listing hnames root place)
    (listing_inOrder hdistinct root place)

/-- The trails do not depend on the order of the listings. -/
theorem trails_listing_eq {d d' : Disk} (hnames : d.tree.WellNamed) (hdistinct : d.tree.Distinct)
    (hnames' : d'.tree.WellNamed) (hdistinct' : d'.tree.Distinct) (halike : d.ListsAlike d')
    (root : String) (place : Place) :
    (Listed.dir (d'.listing root place)).trails = (Listed.dir (d.listing root place)).trails := by
  have hordered := trails_listing_inOrder hnames hdistinct root place
  have hordered' := trails_listing_inOrder hnames' hdistinct' root place
  have honce : ∀ {trails : List Trail},
      (trails.Pairwise fun t u => WayBefore t.way u.way) → trails.Nodup := by
    intro trails htrails
    apply htrails.imp
    rintro t u hbefore rfl
    exact WayBefore.irrefl _ hbefore
  apply List.Perm.eq_of_pairwise _ hordered' hordered
  · apply (List.perm_ext_iff_of_nodup (honce hordered') (honce hordered)).mpr
    intro t
    rw [mem_trails_listing hdistinct', mem_trails_listing hdistinct, halike.isDirectory]
    simp only [halike.kinds _]
  · intro t u _ _ hbefore hafter
    exact absurd hafter hbefore.asymm

end Disk

/-! ## Paths in order -/

/-- The segments of a path as seen from the root of a search, both as seen from `here`. -/
def wayBelow (here root path : String) : List String :=
  (segments (relative here path root).toList).map String.ofList

theorem wayBelow_along {here root : String} (hhere : isAbsolute here = true) (hroot : root ≠ "")
    {way : List String} (hne : way ≠ []) (hway : AreNames way) :
    wayBelow here root (along root way) = way := by
  rw [wayBelow, relative_along hhere hroot hway, if_neg hne, String.toList_ofList,
    segments_joinedNames hne hway, List.map_map]
  simp [Function.comp_def]

/-- One path comes before another in the order of a walk from a root. -/
def PathBefore (here root path other : String) : Prop :=
  WayBefore (wayBelow here root path) (wayBelow here root other)

instance (here root : String) : Std.Irrefl (PathBefore here root) :=
  ⟨fun _ => WayBefore.irrefl _⟩

instance (here root : String) : Std.Antisymm (PathBefore here root) :=
  ⟨fun _ _ hbefore hafter => absurd hafter hbefore.asymm⟩

/-- The entries of a directory come before all that is below its subdirectories. -/
theorem WayBefore.of_above {way other : List String} (habove : way.dropLast <+: other.dropLast)
    (hne : way.dropLast ≠ other.dropLast) : WayBefore way other := by
  obtain ⟨rest, hrest⟩ := habove
  cases rest with
  | nil => exact absurd (by simpa using hrest) hne
  | cons name rest =>
      apply Or.inl
      rw [← hrest]
      generalize way.dropLast = front
      induction front with
      | nil => exact List.nil_lt_cons name rest
      | cons first front ih => exact List.cons_lt_cons_iff.mpr (Or.inr ⟨rfl, ih⟩)

/-- What holds of the paths that a search finds below the directory at a place. -/
structure FoundInOrder (d : Disk) (here root : String) (place : Place) (paths : List String) :
    Prop where
  inOrder : paths.Pairwise (PathBefore here root)
  once : paths.Nodup
  /-- What is found in a directory comes before all that is found below its subdirectories. -/
  aboveFirst : ∀ path ∈ paths, ∀ other ∈ paths,
    (wayBelow here root path).dropLast <+: (wayBelow here root other).dropLast →
    (wayBelow here root path).dropLast ≠ (wayBelow here root other).dropLast →
      [path, other].Sublist paths
  /-- Every directory on the way is a directory and no link to one. -/
  behindDirectories : ∀ path ∈ paths, ∀ front, front <+: wayBelow here root path →
    front ≠ wayBelow here root path → d.tree.kindAt (place.base ++ front) = some .directory

theorem sublist_of_pathBefore {here root path other : String} {paths : List String}
    (hordered : paths.Pairwise (PathBefore here root)) (hpath : path ∈ paths)
    (hother : other ∈ paths) (hbefore : PathBefore here root path other) :
    [path, other].Sublist paths := by
  have hne : path ≠ other := by
    rintro rfl
    exact WayBefore.irrefl _ hbefore
  apply List.sublist_of_subperm_of_pairwise _ (by simpa using hbefore) hordered
  apply List.subperm_of_subset (by simpa using hne)
  intro found hfound
  rcases List.mem_pair.mp hfound with rfl | rfl
  · exact hpath
  · exact hother

section

variable {d : Disk} {here root : String} {place : Place} {trails : List Trail}

/-- The paths of some of the trails of a listing, in their order. -/
theorem foundInOrder_of_trails (hnames : d.tree.WellNamed) (hdistinct : d.tree.Distinct)
    (hhere : isAbsolute here = true) (hroot : root ≠ "")
    (htrails : trails.Sublist (Listed.dir (d.listing root place)).trails) :
    FoundInOrder d here root place (trails.map fun t => along root t.way) := by
  have hway : ∀ t ∈ trails, wayBelow here root (along root t.way) = t.way := by
    intro t ht
    obtain ⟨hne, hway⟩ := trails_of_listing hnames root place t (htrails.subset ht)
    exact wayBelow_along hhere hroot hne hway
  have hordered : (trails.map fun t => along root t.way).Pairwise (PathBefore here root) := by
    rw [List.pairwise_map]
    apply ((Disk.trails_listing_inOrder hnames hdistinct root place).sublist htrails).imp_of_mem
    intro t u ht hu hbefore
    rw [PathBefore, hway t ht, hway u hu]
    exact hbefore
  refine ⟨hordered, hordered.nodup, ?_, ?_⟩
  · intro path hpath other hother habove hne
    exact sublist_of_pathBefore hordered hpath hother (WayBefore.of_above habove hne)
  · intro path hpath front hfront hne
    obtain ⟨t, ht, rfl⟩ := List.mem_map.mp hpath
    rw [hway t ht] at hfront hne
    obtain ⟨-, -, -, kind, hkind, -⟩ := (mem_trails_listing hdistinct root place).mp (htrails.subset ht)
    obtain ⟨rest, hrest⟩ := hfront
    cases rest with
    | nil => exact absurd (by simpa using hrest) hne
    | cons name rest =>
        rw [← hrest, ← List.append_assoc] at hkind
        exact kindAt_directory_of_nonempty hkind

end

theorem isWithin_limit_one (search : Search) : isWithin search.limit 1 = true := by
  unfold Search.limit
  split
  · rfl
  · simpa [isWithin] using one_le_walkedLevels search.levels

namespace Act

theorem run_find (root : String) (search : Search) (m : Machine κ) :
    (find root search).run m =
      ((m.disk.find root search).mapError fun code => .system code none none, m) := by
  unfold find
  rw [run_bind, run_get]
  dsimp only
  cases m.disk.find root search <;> rfl

/-- A search below a directory finds its paths in the strict order of a walk, whatever order the
directories are listed in. -/
theorem find_inOrder {m : Machine κ} {here root : String} (hnames : m.disk.tree.WellNamed)
    (hdistinct : m.disk.tree.Distinct) (hhere : m.disk.currentPath = .ok here)
    (hroot : m.disk.isDirectory root = true) (search : Search) :
    ∃ place paths, m.disk.locate true root = .ok (.directory place) ∧
      (find root search).run m = (.ok paths, m) ∧ FoundInOrder m.disk here root place paths ∧
      ∀ other : Machine κ, other.disk.tree.WellNamed → other.disk.tree.Distinct →
        m.disk.ListsAlike other.disk → (find root search).run other = (.ok paths, other) := by
  obtain ⟨place, hplace⟩ := Disk.exists_place_of_isDirectory hroot
  have hnul := Disk.hasNul_of_isDirectory hroot
  have hlimit := isWithin_limit_one search
  obtain ⟨trails, htrails⟩ : ∃ trails : List Trail,
      trails = (Listed.dir (m.disk.listing root place)).trails.filter fun t =>
        search.selects (t.visit root) && isWithin search.limit t.way.length := ⟨_, rfl⟩
  refine ⟨place, trails.map fun t => along root t.way, hplace, ?_, ?_, ?_⟩
  · rw [run_find, Disk.find, findSelected_eq hnames hhere hnul hplace hlimit, ← htrails]
    rfl
  · apply foundInOrder_of_trails hnames hdistinct (isAbsolute_of_currentPath hhere)
      (ne_empty_of_locate hplace)
    rw [htrails]
    exact List.filter_sublist
  · intro other hnames' hdistinct' halike
    have hhere' : other.disk.currentPath = .ok here := by
      rw [← hhere, Disk.currentPath, Disk.currentPath, halike.cwd]
    rw [run_find, Disk.find, findSelected_eq hnames' hhere' hnul (halike.locate_directory hplace)
      hlimit, Disk.trails_listing_eq hnames hdistinct hnames' hdistinct' halike, ← htrails]
    rfl

/-- What lies in the library of a sample: a link that leads up, listed before a source. -/
def loopEntries : Node.Entries :=
  [("up", .link ".."), ("b.c", .file [] false none),
    ("a", .dir [("z.c", .file [] false none)] none)]

/-- A directory that is listed against the order of its names. -/
def loopMachine : Machine Unit where
  disk := {
    tree := .dir [("m.c", .file [] false none), ("lib", .dir loopEntries none)] none
    cwd := .root }
  environment := []

/-- The same directory, listed in the order of its names. -/
def sortedLoopMachine : Machine Unit where
  disk := {
    tree := .dir [("lib", .dir loopEntries none), ("m.c", .file [] false none)] none
    cwd := .root }
  environment := []

/-- The search for everything below a directory. -/
def searchAll : Search :=
  { regex := (Glob.Pattern.compile "**").regex, recursive := true, mode := .any }

theorem listsAlike_sortedLoopMachine : loopMachine.disk.ListsAlike sortedLoopMachine.disk := by
  refine ⟨?_, rfl⟩
  intro location
  cases location with
  | nil => rfl
  | cons name rest =>
      rw [Node.kindAt_cons, Node.kindAt_cons]
      by_cases hsource : name = "m.c"
      · subst hsource
        rfl
      · have hother : (name == "m.c") = false := by simpa using hsource
        simp [loopMachine, sortedLoopMachine, Node.entries, List.lookup_cons, hother]

theorem find_inOrder_loopMachine :
    loopMachine.disk.tree.WellNamed ∧ loopMachine.disk.tree.Distinct ∧
      loopMachine.disk.currentPath = .ok "/" ∧ loopMachine.disk.isDirectory "." = true ∧
      (find "." searchAll).run sortedLoopMachine =
        (.ok ["./lib", "./m.c", "./lib/a", "./lib/b.c", "./lib/up", "./lib/a/z.c"],
          sortedLoopMachine) := by
  have hnames : loopMachine.disk.tree.WellNamed := by
    simp only [loopMachine, loopEntries, Node.WellNamed, Node.WellNamedEntries, and_true, true_and]
    decide
  have hdistinct : loopMachine.disk.tree.Distinct := by
    simp [loopMachine, loopEntries, Node.Distinct, Node.DistinctEntries]
  have hnames' : sortedLoopMachine.disk.tree.WellNamed := by
    simp only [sortedLoopMachine, loopEntries, Node.WellNamed, Node.WellNamedEntries, and_true,
      true_and]
    decide
  have hdistinct' : sortedLoopMachine.disk.tree.Distinct := by
    simp [sortedLoopMachine, loopEntries, Node.Distinct, Node.DistinctEntries]
  have hhere : loopMachine.disk.currentPath = .ok "/" := rfl
  have hroot : loopMachine.disk.isDirectory "." = true := by decide
  have hfound : loopMachine.disk.find "." searchAll =
      .ok ["./lib", "./m.c", "./lib/a", "./lib/b.c", "./lib/up", "./lib/a/z.c"] := by
    decide
  obtain ⟨place, paths, -, hrun, -, hother⟩ :=
    find_inOrder hnames hdistinct hhere hroot searchAll
  rw [run_find, hfound] at hrun
  cases hrun
  refine ⟨hnames, hdistinct, hhere, hroot, ?_⟩
  exact hother sortedLoopMachine hnames' hdistinct' listsAlike_sortedLoopMachine

end Act

end BuildRunner
