import BuildRunner.Match
import BuildRunner.Proofs.Glob.Levels
import BuildRunner.Proofs.Walk.Trails

/-!
# Walks that are cut off

A search that is not recursive stops its walk at a level that is read off the path of every
directory.  It finds what the recursive search finds down to that level, in the same order.  For a
glob without two stars the level comes from the slashes of the glob, and since every path that the
glob describes lies exactly on it, nothing is lost by stopping there.
-/

namespace BuildRunner

open Glob Path

/-! ## Levels of found paths -/

/-- The number of segments of a path as seen from a directory, both as seen from `here`. -/
def segmentsBelow (here path directory : String) : Nat :=
  (segments (relative here path directory).toList).length

theorem isAbsolute_of_currentPath {d : Disk} {here : String} (hhere : d.currentPath = .ok here) :
    isAbsolute here = true := by
  unfold Disk.currentPath Place.path? at hhere
  split at hhere
  · simp only [Option.elim, Except.ok.injEq] at hhere
    subst here
    simp [isAbsolute]
  · simp at hhere

theorem path?_of_currentPath {d : Disk} {here : String} (hhere : d.currentPath = .ok here) :
    d.cwd.path? = some here := by
  unfold Disk.currentPath at hhere
  cases hpath : d.cwd.path? with
  | none => simp [hpath] at hhere
  | some path => simpa [hpath] using hhere

theorem exists_searchBase {d : Disk} {here : String} (hhere : d.currentPath = .ok here)
    (root : String) : ∃ base, d.searchBase root = some base ∧ isAbsolute base = true := by
  unfold Disk.searchBase
  split
  · exact ⟨"/", rfl, by decide⟩
  · exact ⟨here, path?_of_currentPath hhere, isAbsolute_of_currentPath hhere⟩

theorem ne_empty_of_locate {d : Disk} {follow : Bool} {path : String} {spot : Spot}
    (hlocate : d.locate follow path = .ok spot) : path ≠ "" := by
  rintro rfl
  simp [Disk.locate, locate, checkPath] at hlocate
  contradiction

theorem trails_of_listing {d : Disk} (htree : d.tree.WellNamed) (root : String) (place : Place) :
    ∀ t ∈ (Listed.dir (d.listing root place)).trails, t.way ≠ [] ∧ AreNames t.way :=
  Listed.trail_names _ (Disk.wellNamedEach_listing htree root place)

/-- The path of an entry has as many segments below the start of the walk as its trail. -/
theorem segmentsBelow_along {here top : String} (hhere : isAbsolute here = true) (htop : top ≠ "")
    {way : List String} (hne : way ≠ []) (hway : AreNames way) :
    segmentsBelow here (along top way) top = way.length := by
  rw [segmentsBelow, relative_along hhere htop hway, if_neg hne, String.toList_ofList,
    segments_joinedNames hne hway, List.length_map]

/-! ## Cutting off at a level -/

/-- What a search finds on a disk, from the trails of its start. -/
theorem findSelected_of_searchBase {d : Disk} {base root : String} {place : Place}
    (htree : d.tree.WellNamed) (hbase : d.searchBase root = some base)
    (habsolute : isAbsolute base = true) (hnul : Disk.hasNul root = false)
    (hlocate : d.locate true root = .ok (.directory place)) {limit : Option Nat}
    (hlimit : isWithin limit 1 = true) (selects : Visit → Bool) :
    d.findSelected root limit selects =
      .ok ((((Listed.dir (d.listing root place)).trails.filter fun t =>
        selects (t.visit root) && isWithin limit t.way.length).map fun t => along root t.way)) := by
  unfold Disk.findSelected
  rw [hnul, hlocate, hbase]
  simp only [Bool.false_eq_true, if_false]
  rw [walk_eq habsolute (ne_empty_of_locate hlocate) (Disk.wellNamedEach_listing htree root place)
    hlimit, List.filter_map, List.filter_filter, List.map_map]
  rfl

theorem findSelected_eq {d : Disk} {here root : String} {place : Place} (htree : d.tree.WellNamed)
    (hhere : d.currentPath = .ok here) (hnul : Disk.hasNul root = false)
    (hlocate : d.locate true root = .ok (.directory place)) {limit : Option Nat}
    (hlimit : isWithin limit 1 = true) (selects : Visit → Bool) :
    d.findSelected root limit selects =
      .ok ((((Listed.dir (d.listing root place)).trails.filter fun t =>
        selects (t.visit root) && isWithin limit t.way.length).map fun t => along root t.way)) := by
  obtain ⟨base, hbase, habsolute⟩ := exists_searchBase hhere root
  exact findSelected_of_searchBase htree hbase habsolute hnul hlocate hlimit selects

/-- A search starts at a directory or finds nothing. -/
theorem exists_place_or_findSelected_eq_nil (d : Disk) (root : String) :
    (∃ place, Disk.hasNul root = false ∧ d.locate true root = .ok (.directory place)) ∨
      ∀ limit selects, d.findSelected root limit selects = .ok [] := by
  unfold Disk.findSelected
  cases hnul : Disk.hasNul root with
  | true => exact Or.inr fun _ _ => rfl
  | false =>
      cases hlocate : d.locate true root with
      | error code => exact Or.inr fun _ _ => rfl
      | ok spot =>
          cases spot with
          | directory place => exact Or.inl ⟨place, rfl, rfl⟩
          | leaf parent name node => exact Or.inr fun _ _ => rfl
          | vacant parent name => exact Or.inr fun _ _ => rfl

/-- A walk that is cut off finds what the whole walk finds down to that level. -/
theorem findSelected_some {d : Disk} {here : String} (htree : d.tree.WellNamed)
    (hhere : d.currentPath = .ok here) (root : String) {levels : Nat} (hlevels : 1 ≤ levels)
    (selects : Visit → Bool) :
    d.findSelected root (some levels) selects =
      (d.findSelected root none selects).map
        (List.filter fun path => segmentsBelow here path root ≤ levels) := by
  rcases exists_place_or_findSelected_eq_nil d root with ⟨place, hnul, hlocate⟩ | hnil
  · have hwithin : isWithin (some levels) 1 = true := by simpa [isWithin] using hlevels
    have hwhole : isWithin none 1 = true := rfl
    rw [findSelected_eq htree hhere hnul hlocate hwithin,
      findSelected_eq htree hhere hnul hlocate hwhole, Except.map, List.filter_map,
      List.filter_filter]
    refine congrArg (fun trails => Except.ok (List.map _ trails)) ?_
    apply List.filter_congr
    intro t ht
    obtain ⟨hne, hnames⟩ := trails_of_listing htree root place t ht
    have hlevel : segmentsBelow here (along root t.way) root = t.way.length :=
      segmentsBelow_along (isAbsolute_of_currentPath hhere) (ne_empty_of_locate hlocate) hne hnames
    simp only [Function.comp_apply, hlevel, isWithin, Option.all_some, Option.all_none,
      Bool.and_true]
    exact Bool.and_comm _ _
  · rw [hnil, hnil]
    rfl

/-- A path that the whole walk finds is that of a selected trail. -/
theorem exists_trail_of_mem {d : Disk} {here root : String} {selects : Visit → Bool}
    {paths : List String} (htree : d.tree.WellNamed) (hhere : d.currentPath = .ok here)
    (hfound : d.findSelected root none selects = .ok paths) {path : String}
    (hpath : path ∈ paths) :
    ∃ t : Trail, t.way ≠ [] ∧ AreNames t.way ∧ selects (t.visit root) = true ∧
      path = along root t.way ∧ segmentsBelow here path root = t.way.length := by
  rcases exists_place_or_findSelected_eq_nil d root with ⟨place, hnul, hlocate⟩ | hnil
  · have hwhole : isWithin none 1 = true := rfl
    rw [findSelected_eq htree hhere hnul hlocate hwhole, Except.ok.injEq] at hfound
    subst paths
    obtain ⟨t, ht, rfl⟩ := List.mem_map.mp hpath
    obtain ⟨hmem, hkept⟩ := List.mem_filter.mp ht
    obtain ⟨hne, hnames⟩ := trails_of_listing htree root place t hmem
    refine ⟨t, hne, hnames, (Bool.and_eq_true_iff.mp hkept).1, rfl, ?_⟩
    exact segmentsBelow_along (isAbsolute_of_currentPath hhere) (ne_empty_of_locate hlocate) hne
      hnames
  · rw [hnil, Except.ok.injEq] at hfound
    subst paths
    simp at hpath

theorem one_le_walkedLevels (levels : Option Int) : 1 ≤ walkedLevels levels := by
  unfold walkedLevels
  omega

theorem coe_walkedLevels (levels : Option Int) :
    (walkedLevels levels : Int) = max (levels.getD 1) 1 := by
  unfold walkedLevels
  omega

/-! ## The level of a glob -/

theorem length_way (way : List String) (hne : way ≠ []) (hway : AreNames way) :
    way.length = (joinedNames way).count '/' + 1 := by
  rw [← length_segments, segments_joinedNames hne hway, List.length_map]

/-- Every path that a glob without two stars describes lies on the level of the glob. -/
theorem length_way_of_fullMatch {pattern : String} {way : List String}
    (hflat : ¬['*', '*'] <:+: (Pattern.compile pattern).glob.toList)
    (hne : way ≠ []) (hway : AreNames way)
    (hmatch : (Pattern.compile pattern).regex.fullMatch
      (along (Pattern.compile pattern).root way).toList = true) :
    way.length = walkLevels (Pattern.compile pattern).glob (Pattern.compile pattern).root := by
  rw [toList_along hne hway, Pattern.fullMatch_compile_iff_below] at hmatch
  obtain ⟨below, hbelow, hmatch⟩ := hmatch
  rw [← List.append_cancel_left hbelow] at hmatch
  rw [length_way way hne hway, Pattern.walkLevels_compile hflat hmatch]

/-! ## Searches -/

/-- Down to the level of a glob without two stars a walk finds all that the glob describes. -/
theorem findSelected_compile {d : Disk} {here pattern : String} (htree : d.tree.WellNamed)
    (hhere : d.currentPath = .ok here)
    (hflat : ¬['*', '*'] <:+: (Pattern.compile pattern).glob.toList) {selects : Visit → Bool}
    (hselects : ∀ visit, selects visit = true →
      (Pattern.compile pattern).regex.fullMatch visit.path.toList = true) :
    d.findSelected (Pattern.compile pattern).root
        (some (walkLevels (Pattern.compile pattern).glob (Pattern.compile pattern).root)) selects =
      d.findSelected (Pattern.compile pattern).root none selects := by
  rw [findSelected_some htree hhere _ (one_le_walkLevels _ _)]
  cases hfound : d.findSelected (Pattern.compile pattern).root none selects with
  | error code => rfl
  | ok paths =>
      refine congrArg Except.ok (List.filter_eq_self.mpr ?_)
      intro path hpath
      obtain ⟨t, hne, hnames, hvisit, rfl, hlevel⟩ := exists_trail_of_mem htree hhere hfound hpath
      have hmatch := hselects _ hvisit
      rw [Trail.visit_path] at hmatch
      rw [decide_eq_true_eq, hlevel]
      exact Nat.le_of_eq (length_way_of_fullMatch hflat hne hnames hmatch)

theorem find_compile {d : Disk} {here pattern : String} (htree : d.tree.WellNamed)
    (hhere : d.currentPath = .ok here)
    (hflat : ¬['*', '*'] <:+: (Pattern.compile pattern).glob.toList) (search : Search)
    (hregex : search.regex = (Pattern.compile pattern).regex)
    (hlevels : search.levels = (Pattern.compile pattern).levels.map Int.ofNat) :
    d.find (Pattern.compile pattern).root { search with recursive := false } =
      d.find (Pattern.compile pattern).root { search with recursive := true } := by
  have hone : 1 ≤ walkLevels (Pattern.compile pattern).glob (Pattern.compile pattern).root :=
    one_le_walkLevels _ _
  rw [(recursive_and_levels_of_flat hflat).2, Option.map_some] at hlevels
  have hwalked : walkedLevels search.levels =
      walkLevels (Pattern.compile pattern).glob (Pattern.compile pattern).root := by
    rw [hlevels, walkedLevels, Option.getD_some, Int.ofNat_eq_natCast]
    omega
  have hselects : ∀ visit, search.selects visit = true →
      (Pattern.compile pattern).regex.fullMatch visit.path.toList = true := by
    intro visit hvisit
    rw [Search.selects, hregex, Bool.and_eq_true, Bool.and_eq_true] at hvisit
    exact hvisit.1.2
  have hfound := findSelected_compile htree hhere hflat hselects
  rw [← hwalked] at hfound
  exact hfound

/-- Pruning loses no match: a walk of limited depth finds what the whole walk finds down to that
depth, whatever is selected, so that a search that is not recursive finds a part of the recursive
one in the same order; and for a pattern with a star but without two in a row that part is all. -/
theorem find_pruned_eq {d : Disk} {here : String} (htree : d.tree.WellNamed)
    (hhere : d.currentPath = .ok here) :
    (∀ (root : String) (levels : Option Int) (selects : Visit → Bool),
      d.findSelected root (some (walkedLevels levels)) selects =
        (d.findSelected root none selects).map (List.filter fun path =>
          (segmentsBelow here path root : Int) ≤ max (levels.getD 1) 1)) ∧
    (∀ (root : String) (search : Search),
      d.find root { search with recursive := false } =
        (d.find root { search with recursive := true }).map (List.filter fun path =>
          (segmentsBelow here path root : Int) ≤ max (search.levels.getD 1) 1)) ∧
    (∀ (pattern : String) (search : Search),
      let compiled := Pattern.compile pattern
      '*' ∈ compiled.glob.toList → ¬['*', '*'] <:+: compiled.glob.toList →
        search.regex = compiled.regex → search.levels = compiled.levels.map Int.ofNat →
          compiled.recursive = false ∧
            d.find compiled.root { search with recursive := false } =
              d.find compiled.root { search with recursive := true }) := by
  have hpruned : ∀ (root : String) (levels : Option Int) (selects : Visit → Bool),
      d.findSelected root (some (walkedLevels levels)) selects =
        (d.findSelected root none selects).map (List.filter fun path =>
          (segmentsBelow here path root : Int) ≤ max (levels.getD 1) 1) := by
    intro root levels selects
    rw [findSelected_some htree hhere root (one_le_walkedLevels levels)]
    simp only [← coe_walkedLevels, Int.ofNat_le]
  refine ⟨hpruned, fun root search => hpruned root search.levels _, ?_⟩
  intro pattern search compiled _ hflat hregex hlevels
  exact ⟨(recursive_and_levels_of_flat hflat).1,
    find_compile htree hhere hflat search hregex hlevels⟩

/-- A directory with a source, and one more source below it. -/
def sampleDisk : Disk where
  tree := .dir [("lib", .dir [("a.c", .file [] false none),
    ("deep", .dir [("b.c", .file [] false none)] none)] none), ("m.c", .file [] false none)] none
  cwd := .root

theorem find_pruned_eq_sampleDisk :
    sampleDisk.tree.WellNamed ∧ sampleDisk.currentPath = .ok "/" ∧
      sampleDisk.find "." { regex := (Pattern.compile "*/*.c").regex, levels := some 2 } =
        sampleDisk.find "."
          { regex := (Pattern.compile "*/*.c").regex, levels := some 2, recursive := true } ∧
      sampleDisk.find "." { regex := (Pattern.compile "*/*.c").regex, levels := some 2 } =
        .ok ["./lib/a.c"] := by
  have htree : sampleDisk.tree.WellNamed := by
    simp only [sampleDisk, Node.WellNamed, Node.WellNamedEntries, and_true, true_and]
    decide
  have hhere : sampleDisk.currentPath = .ok "/" := rfl
  have hglob : (Pattern.compile "*/*.c").glob.toList = ['*', '/', '*', '.', 'c'] := by
    decide
  have hroot : (Pattern.compile "*/*.c").root = "." := by decide
  have hlevels : (Pattern.compile "*/*.c").levels = some 2 := by decide
  have hpruned := (find_pruned_eq htree hhere).2.2 "*/*.c"
    { regex := (Pattern.compile "*/*.c").regex, levels := some 2 } (by rw [hglob]; decide)
    (by rw [hglob]; decide) rfl (by rw [hlevels]; rfl)
  rw [hroot] at hpruned
  refine ⟨htree, hhere, hpruned.2, ?_⟩
  decide

end BuildRunner
