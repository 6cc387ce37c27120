import BuildRunner.Proofs.Console.Lines
import BuildRunner.Proofs.Walk.Found

/-!
# Filters of one list

What a pattern describes comes from one list, that of the trails below its root.  The mode and each
of the globs to exclude take their share of it away, so that they can be told apart from each other:
the globs to exclude act on the list of the bare pattern, and the modes for files and for
directories divide the list of the mode for both.
-/

namespace BuildRunner

open Glob Path

/-! ## Patterns with globs to exclude -/

/-- A glob with globs to exclude behind it. -/
def withExcludes (main : String) (excludes : List String) : String :=
  "|".intercalate (main :: excludes)

theorem withExcludes_nil (main : String) : withExcludes main [] = main := by
  rw [withExcludes, String.intercalate_singleton]

/-- Whether a text is in the language of one of the globs; an empty glob excludes nothing. -/
def Excludes (excludes : List String) (text : String) : Prop :=
  ∃ e ∈ excludes, e ≠ "" ∧ Token.Matches (tokens (normalGlob e).toList) text.toList

/-- The expressions of the globs to exclude. -/
def excludeRegexes (excludes : List String) : List Regex :=
  (excludes.filter (· ≠ "")).map fun e => Regex.ofGlob (normalGlob e).toList

theorem isExcluded_excludeRegexes_iff (excludes : List String) (text : String) :
    Pattern.isExcluded (excludeRegexes excludes) text = true ↔ Excludes excludes text := by
  simp only [Pattern.isExcluded, excludeRegexes, List.any_map, List.any_eq_true, List.mem_filter,
    decide_eq_true_eq, Function.comp_apply, Regex.fullMatch_ofGlob_iff, Excludes, and_assoc]

instance (excludes : List String) (text : String) : Decidable (Excludes excludes text) :=
  decidable_of_iff _ (isExcluded_excludeRegexes_iff excludes text)

section

variable {main : String} {excludes : List String} (hmain : '|' ∉ main.toList)
  (hexcludes : ∀ e ∈ excludes, '|' ∉ e.toList)

include hmain hexcludes

theorem globAndExcludes_withExcludes :
    globAndExcludes (withExcludes main excludes) = (main, excludes.filter (· ≠ "")) := by
  have hparts : ∀ part ∈ (main :: excludes).map String.toList, '|' ∉ part := by
    intro part hpart
    obtain ⟨glob, hglob, rfl⟩ := List.mem_map.mp hpart
    rcases List.mem_cons.mp hglob with rfl | hglob
    · exact hmain
    · exact hexcludes glob hglob
  have hsplit : (withExcludes main excludes).toList.splitOn '|' =
      main.toList :: excludes.map String.toList := by
    rw [withExcludes, String.toList_intercalate]
    exact List.splitOn_intercalate '|' hparts (by simp)
  have hkept : ((excludes.map String.toList).filter fun e => !e.isEmpty).map String.ofList =
      excludes.filter (· ≠ "") := by
    have hid : String.ofList ∘ String.toList = id := funext fun _ => String.ofList_toList
    rw [List.filter_map, List.map_map, hid, List.map_id]
    apply List.filter_congr
    intro e _
    by_cases he : e = ""
    · subst he
      rfl
    · have hne : e.toList.isEmpty = false := by simpa using he
      simp [hne, he]
  rw [globAndExcludes, hsplit]
  simp only [String.ofList_toList, hkept]

omit hexcludes in
theorem globAndExcludes_bare : globAndExcludes main = (main, []) :=
  @globAndExcludes_withExcludes main [] hmain (by simp)

theorem compile_withExcludes :
    Pattern.compile (withExcludes main excludes) =
      { Pattern.compile main with excludes := excludeRegexes excludes } := by
  have hbare := globAndExcludes_bare hmain
  unfold Pattern.compile
  rw [globAndExcludes_withExcludes hmain hexcludes, hbare]
  rfl

theorem compile_glob_withExcludes : (Pattern.compile (withExcludes main excludes)).glob =
    normalGlob main := by
  rw [Pattern.compile_glob, globAndExcludes_withExcludes hmain hexcludes]

end

/-! ## What a pattern with a star describes -/

/-- The trails below the root of a search. -/
structure Disk.TrailsBelow (d : Disk) (root : String) (trails : List Trail) : Prop where
  root_ne : trails ≠ [] → root ≠ ""
  names : ∀ t ∈ trails, t.way ≠ [] ∧ AreNames t.way
  once : d.tree.Distinct → (trails.map Trail.way).Nodup

theorem isAbsolute_of_searchBase {d : Disk} {root base : String}
    (hbase : d.searchBase root = some base) : isAbsolute base = true := by
  unfold Disk.searchBase at hbase
  split at hbase
  · cases hbase
    decide
  · apply isAbsolute_of_currentPath (d := d)
    rw [Disk.currentPath, hbase]
    rfl

theorem findSelected_of_no_searchBase {d : Disk} {root : String} {place : Place}
    (hnul : Disk.hasNul root = false) (hlocate : d.locate true root = .ok (.directory place))
    (hbase : d.searchBase root = none) (limit : Option Nat) (selects : Visit → Bool) :
    d.findSelected root limit selects = .error .notFound := by
  unfold Disk.findSelected
  rw [hnul, hlocate, hbase]
  rfl

theorem nodup_ways {d : Disk} (hnames : d.tree.WellNamed) (hdistinct : d.tree.Distinct)
    (root : String) (place : Place) :
    ((Listed.dir (d.listing root place)).trails.map Trail.way).Nodup := by
  have hordered := Disk.trails_listing_inOrder hnames hdistinct root place
  rw [List.Nodup, List.pairwise_map]
  apply hordered.imp
  intro t u hbefore heq
  rw [heq] at hbefore
  exact WayBefore.irrefl _ hbefore

theorem trailsBelow_listing {d : Disk} (hnames : d.tree.WellNamed) {root : String} {place : Place}
    (hlocate : d.locate true root = .ok (.directory place)) :
    d.TrailsBelow root (Listed.dir (d.listing root place)).trails :=
  ⟨fun _ => ne_empty_of_locate hlocate, trails_of_listing hnames root place,
    fun hdistinct => nodup_ways hnames hdistinct root place⟩

/-- All that searches below a root can find is one list of trails, or a failure. -/
theorem exists_trailsBelow {d : Disk} (hnames : d.tree.WellNamed) (root : String) :
    ∃ result : Except Errno (List Trail), (∀ trails, result = .ok trails → d.TrailsBelow root trails) ∧
      ∀ limit selects, isWithin limit 1 = true →
        d.findSelected root limit selects = result.map fun trails =>
          (trails.filter fun t => selects (t.visit root) && isWithin limit t.way.length).map
            fun t => along root t.way := by
  rcases exists_place_or_findSelected_eq_nil d root with ⟨place, hnul, hlocate⟩ | hnil
  · cases hbase : d.searchBase root with
    | none =>
        refine ⟨.error .notFound, by simp, fun limit selects _ => ?_⟩
        exact findSelected_of_no_searchBase hnul hlocate hbase limit selects
    | some base =>
        refine ⟨.ok (Listed.dir (d.listing root place)).trails, ?_, fun limit selects hlimit => ?_⟩
        · intro trails htrails
          cases htrails
          exact trailsBelow_listing hnames hlocate
        · exact findSelected_of_searchBase hnames hbase (isAbsolute_of_searchBase hbase) hnul
            hlocate hlimit selects
  · refine ⟨.ok [], ?_, fun limit selects _ => hnil limit selects⟩
    intro trails htrails
    cases htrails
    exact ⟨fun hne => absurd rfl hne, by simp, fun _ => List.nodup_nil⟩

/-- The path of an entry as a pattern gives it: without the anchor of the current directory. -/
def matchedPath (root : String) (way : List String) : String :=
  if root = "." then withoutAnchor (along root way) else along root way

/-- The paths of a walk as a pattern gives them. -/
def unanchored (root : String) (paths : List String) : List String :=
  if root = "." then paths.map withoutAnchor else paths

theorem unanchored_along (root : String) (trails : List Trail) :
    unanchored root (trails.map fun t => along root t.way) =
      trails.map fun t => matchedPath root t.way := by
  unfold unanchored matchedPath
  split
  · rw [List.map_map]
    rfl
  · rfl

theorem matchedPath_dot {way : List String} (hne : way ≠ []) (hway : AreNames way) :
    matchedPath "." way = String.ofList (joinedNames way) := by
  have hanchor : (".".toList ++ separator ".".toList : List Char) = ['.', '/'] := by decide
  rw [matchedPath, if_pos rfl, withoutAnchor, toList_along hne hway, hanchor]
  rfl

theorem ofList_joinedNames_injective {way other : List String} (hne : way ≠ [])
    (hway : AreNames way) (hne' : other ≠ []) (hother : AreNames other)
    (hjoined : joinedNames way = joinedNames other) : way = other := by
  have hparts := congrArg segments hjoined
  rw [segments_joinedNames hne hway, segments_joinedNames hne' hother] at hparts
  exact List.map_injective_iff.mpr (fun _ _ => String.toList_injective) hparts

/-- Different ways give different paths. -/
theorem matchedPath_injective {root : String} {way other : List String} (hne : way ≠ [])
    (hway : AreNames way) (hne' : other ≠ []) (hother : AreNames other)
    (hpath : matchedPath root way = matchedPath root other) : way = other := by
  apply ofList_joinedNames_injective hne hway hne' hother
  by_cases hroot : root = "."
  · subst hroot
    rw [matchedPath_dot hne hway, matchedPath_dot hne' hother] at hpath
    simpa using congrArg String.toList hpath
  · rw [matchedPath, matchedPath, if_neg hroot, if_neg hroot] at hpath
    have hchars := congrArg String.toList hpath
    rw [toList_along hne hway, toList_along hne' hother] at hchars
    exact List.append_cancel_left hchars

/-- An entry below the root of a pattern is matched if its path, as the pattern gives it, is in the
language of the glob. -/
theorem fullMatch_along_iff (pattern : String) {way : List String} (hne : way ≠ [])
    (hway : AreNames way) :
    (Pattern.compile pattern).regex.fullMatch
        (along (Pattern.compile pattern).root way).toList = true ↔
      Token.Matches (tokens (Pattern.compile pattern).glob.toList)
        (matchedPath (Pattern.compile pattern).root way).toList := by
  rw [Pattern.fullMatch_compile_iff, Pattern.Describes]
  by_cases hroot : (Pattern.compile pattern).root = "."
  · have hanchor : (".".toList ++ separator ".".toList : List Char) = ['.', '/'] := by decide
    rw [if_pos hroot, hroot, matchedPath_dot hne hway, String.toList_ofList, toList_along hne hway,
      hanchor]
    simp
  · rw [if_neg hroot, matchedPath, if_neg hroot]

/-! ## Paths as seen from the root -/

/-- A path is seen from the root of its pattern as the names on the way to it. -/
theorem relative_matchedPath {here root : String} (hhere : isAbsolute here = true)
    (hroot : root ≠ "") {way : List String} (hne : way ≠ []) (hway : AreNames way) :
    relative here (matchedPath root way) root = String.ofList (joinedNames way) := by
  by_cases hdot : root = "."
  · subst hdot
    rw [matchedPath_dot hne hway, relative_joinedNames hhere hne hway]
  · rw [matchedPath, if_neg hdot, relative_along hhere hroot hway, if_neg hne]

/-! ## Matches -/

/-- What a pattern with a star describes, from the trails below its root. -/
theorem matchPattern_of_star {d : Disk} {pattern : String} {compiled : Pattern}
    (hcompile : Pattern.compile pattern = compiled)
    (hstar : compiled.glob.toList.contains '*' = true) {result : Except Errno (List Trail)}
    (hresult : ∀ limit selects, isWithin limit 1 = true →
      d.findSelected compiled.root limit selects = result.map fun trails =>
        (trails.filter fun t => selects (t.visit compiled.root) && isWithin limit t.way.length).map
          fun t => along compiled.root t.way)
    (mode : Mode) :
    d.matchPattern pattern mode = result.map fun trails =>
      (trails.filter fun t => (compiled.search mode).selects (t.visit compiled.root) &&
        isWithin (compiled.search mode).limit t.way.length).map
          fun t => matchedPath compiled.root t.way := by
  have hlimit := isWithin_limit_one (compiled.search mode)
  unfold Disk.matchPattern
  dsimp only
  rw [hcompile, if_pos hstar, Disk.find, hresult _ _ hlimit]
  cases result with
  | error code => rfl
  | ok trails => exact congrArg Except.ok (unanchored_along compiled.root _)

/-- A pattern without a star describes one path at most, whatever it excludes and whatever mode is
asked for. -/
theorem exists_literal (d : Disk) (compiled : Pattern) (spelling : String) :
    ∃ path? : Option String, ∀ excludes mode,
      d.findLiteral { compiled with excludes } spelling mode =
        path?.toList.filter fun path => mode.accepts (d.isDirectory path) &&
          !Pattern.isExcluded excludes (name compiled.glob) := by
  refine ⟨if d.entryExists spelling then some spelling
    else if d.entryExists compiled.glob then some compiled.glob else none, fun excludes mode => ?_⟩
  unfold Disk.findLiteral
  dsimp only
  split
  · next hpath => rw [hpath]; rfl
  · next path hpath => rw [hpath, Option.toList_some, List.filter_cons, List.filter_nil]

theorem matchPattern_of_literal {d : Disk} {pattern : String} {compiled : Pattern}
    (hcompile : Pattern.compile pattern = compiled)
    (hliteral : compiled.glob.toList.contains '*' = false) (mode : Mode) :
    d.matchPattern pattern mode =
      .ok (d.findLiteral compiled (globAndExcludes pattern).1 mode) := by
  unfold Disk.matchPattern
  dsimp only
  rw [hcompile, hliteral]
  rfl

/-- The name of an entry as the globs to exclude see it: its path below the root of the pattern, or
the last segment of a pattern without a star. -/
def excludedName (here main path : String) : String :=
  let glob := normalGlob main
  if glob.toList.contains '*' then relative here path (walkRoot glob) else name glob

/-- The paths that globs to exclude leave over. -/
def leaveOver (here main : String) (excludes paths : List String) : List String :=
  paths.filter fun path => ¬Excludes excludes (excludedName here main path)

theorem isExcluded_eq_decide (excludes : List String) (text : String) :
    Pattern.isExcluded (excludeRegexes excludes) text = decide (Excludes excludes text) :=
  Bool.eq_iff_iff.mpr (by rw [isExcluded_excludeRegexes_iff, decide_eq_true_eq])

section

variable {d : Disk} {here main : String} {excludes : List String} (hmain : '|' ∉ main.toList)
  (hexcludes : ∀ e ∈ excludes, '|' ∉ e.toList)

include hmain hexcludes

theorem matchPattern_withExcludes_of_star (hnames : d.tree.WellNamed)
    (hhere : isAbsolute here = true) (hstar : (normalGlob main).toList.contains '*' = true)
    (mode : Mode) :
    d.matchPattern (withExcludes main excludes) mode =
      (d.matchPattern main mode).map (leaveOver here main excludes) := by
  have hbare := globAndExcludes_bare hmain
  have hglob : (Pattern.compile main).glob = normalGlob main := by
    rw [Pattern.compile_glob, hbare]
  have hroot : (Pattern.compile main).root = walkRoot (normalGlob main) := by
    rw [Pattern.compile_root, hglob]
  have hnone : (Pattern.compile main).excludes = excludeRegexes [] := by
    unfold Pattern.compile
    rw [hbare]
    rfl
  have hcompile := compile_withExcludes hmain hexcludes
  obtain ⟨result, hproper, hfound⟩ := exists_trailsBelow hnames (Pattern.compile main).root
  rw [← hglob] at hstar
  generalize hbarely : Pattern.compile main = compiled at *
  rw [matchPattern_of_star hcompile hstar hfound, matchPattern_of_star hbarely hstar hfound]
  cases hresult : result with
  | error code => rfl
  | ok trails =>
      have htrails := hproper trails hresult
      simp only [Except.map, leaveOver, List.filter_map, List.filter_filter]
      refine congrArg (fun trails => Except.ok (List.map _ trails)) ?_
      apply List.filter_congr
      intro t ht
      obtain ⟨hne, hway⟩ := htrails.names t ht
      have hstart := htrails.root_ne (List.ne_nil_of_mem ht)
      have hname : excludedName here main (matchedPath compiled.root t.way) =
          (t.visit compiled.root).below := by
        unfold excludedName
        dsimp only
        rw [← hroot, ← hglob, if_pos hstar, relative_matchedPath hhere hstart hne hway]
        rfl
      have hfree : ∀ text, Pattern.isExcluded (excludeRegexes []) text = false := fun _ => rfl
      simp only [Function.comp_apply, hname, Search.selects, Pattern.search, hnone, hfree,
        isExcluded_eq_decide, decide_not, Bool.not_false, Bool.and_true]
      ac_rfl

theorem matchPattern_withExcludes_of_literal
    (hliteral : (normalGlob main).toList.contains '*' = false) (mode : Mode) :
    d.matchPattern (withExcludes main excludes) mode =
      (d.matchPattern main mode).map (leaveOver here main excludes) := by
  have hbare := globAndExcludes_bare hmain
  have hglob : (Pattern.compile main).glob = normalGlob main := by
    rw [Pattern.compile_glob, hbare]
  have hnone : (Pattern.compile main).excludes = excludeRegexes [] := by
    unfold Pattern.compile
    rw [hbare]
    rfl
  have hname : ∀ path, excludedName here main path = name (normalGlob main) := by
    intro path
    unfold excludedName
    dsimp only
    rw [hliteral]
    rfl
  have hfree : ∀ text, Pattern.isExcluded (excludeRegexes []) text = false := fun _ => rfl
  have hcompile := compile_withExcludes hmain hexcludes
  rw [← hglob] at hliteral hname
  generalize hbarely : Pattern.compile main = compiled at *
  obtain ⟨path?, hpath⟩ := exists_literal d compiled main
  have hpath' := hpath (excludeRegexes []) mode
  rw [← hnone] at hpath'
  rw [matchPattern_of_literal hcompile hliteral, matchPattern_of_literal hbarely hliteral,
    globAndExcludes_withExcludes hmain hexcludes, hbare, hpath, hpath', Except.map, leaveOver,
    List.filter_filter]
  refine congrArg Except.ok (List.filter_congr fun path _ => ?_)
  simp only [hname, hnone, hfree, isExcluded_eq_decide, decide_not, Bool.not_false, Bool.and_true]
  exact Bool.and_comm _ _

/-- The globs to exclude take their share of what the bare pattern describes away. -/
theorem matchPattern_withExcludes (hnames : d.tree.WellNamed) (hhere : isAbsolute here = true)
    (mode : Mode) :
    d.matchPattern (withExcludes main excludes) mode =
      (d.matchPattern main mode).map (leaveOver here main excludes) := by
  cases hstar : (normalGlob main).toList.contains '*' with
  | true => exact matchPattern_withExcludes_of_star hmain hexcludes hnames hhere hstar mode
  | false => exact matchPattern_withExcludes_of_literal hmain hexcludes hstar mode

end

theorem excludes_congr {excludes others : List String}
    (hsame : ∀ e, e ≠ "" → (e ∈ excludes ↔ e ∈ others)) (text : String) :
    Excludes excludes text ↔ Excludes others text := by
  constructor
  · rintro ⟨e, hmem, hne, hmatch⟩
    exact ⟨e, (hsame e hne).mp hmem, hne, hmatch⟩
  · rintro ⟨e, hmem, hne, hmatch⟩
    exact ⟨e, (hsame e hne).mpr hmem, hne, hmatch⟩

/-! ## Modes -/

/-- The results of a match for files, for directories and for both. -/
structure DividedByMode (files directories both : List String) : Prop where
  files_sublist : files.Sublist both
  directories_sublist : directories.Sublist both
  disjoint : files.Disjoint directories
  perm : both.Perm (files ++ directories)
  once : both.Nodup

theorem dividedByMode_map_filter {α : Type} {entries : List α} {path : α → String}
    (honce : (entries.map path).Nodup) (isDir wanted : α → Bool) :
    DividedByMode ((entries.filter fun e => !isDir e && wanted e).map path)
      ((entries.filter fun e => isDir e && wanted e).map path)
      ((entries.filter wanted).map path) := by
  have hfiles : (entries.filter fun e => !isDir e && wanted e) =
      (entries.filter wanted).filter fun e => !isDir e := by rw [List.filter_filter]
  have hdirectories : (entries.filter fun e => isDir e && wanted e) =
      (entries.filter wanted).filter isDir := by rw [List.filter_filter]
  have hwanted : ((entries.filter wanted).map path).Nodup :=
    honce.sublist (List.filter_sublist.map path)
  rw [hfiles, hdirectories]
  have hperm : ((entries.filter wanted).map path).Perm
      (((entries.filter wanted).filter fun e => !isDir e).map path ++
        ((entries.filter wanted).filter isDir).map path) := by
    rw [← List.map_append]
    apply List.Perm.map
    exact (List.filter_append_perm isDir _).symm.trans List.perm_append_comm
  exact ⟨List.filter_sublist.map path, List.filter_sublist.map path,
    List.disjoint_of_nodup_append (hperm.nodup_iff.mp hwanted), hperm, hwanted⟩

theorem nodup_matchedPaths {d : Disk} {root : String} {trails : List Trail}
    (htrails : d.TrailsBelow root trails) (hdistinct : d.tree.Distinct) :
    (trails.map fun t => matchedPath root t.way).Nodup := by
  have hways : trails.map (fun t => matchedPath root t.way) =
      (trails.map Trail.way).map (matchedPath root) := by rw [List.map_map]; rfl
  rw [hways]
  apply List.Nodup.map_on _ (htrails.once hdistinct)
  intro way hway other hother hpath
  obtain ⟨t, ht, rfl⟩ := List.mem_map.mp hway
  obtain ⟨u, hu, rfl⟩ := List.mem_map.mp hother
  obtain ⟨hne, hnames⟩ := htrails.names t ht
  obtain ⟨hne', hnames'⟩ := htrails.names u hu
  exact matchedPath_injective hne hnames hne' hnames' hpath

/-- A pattern fails in every mode, or the modes divide what it describes. -/
theorem matchPattern_divided {d : Disk} (hnames : d.tree.WellNamed) (hdistinct : d.tree.Distinct)
    (pattern : String) :
    (∃ code, ∀ mode, d.matchPattern pattern mode = .error code) ∨
      ∃ files directories both, d.matchPattern pattern .files = .ok files ∧
        d.matchPattern pattern .directories = .ok directories ∧
        d.matchPattern pattern .any = .ok both ∧ DividedByMode files directories both := by
  generalize hcompile : Pattern.compile pattern = compiled
  cases hstar : compiled.glob.toList.contains '*' with
  | true =>
      obtain ⟨result, hproper, hfound⟩ := exists_trailsBelow hnames compiled.root
      have hmatch := matchPattern_of_star hcompile hstar hfound
      cases hresult : result with
      | error code =>
          refine Or.inl ⟨code, fun mode => ?_⟩
          rw [hmatch, hresult]
          rfl
      | ok trails =>
          have htrails := hproper trails hresult
          have honce := nodup_matchedPaths htrails hdistinct
          have hmode : ∀ mode, d.matchPattern pattern mode =
              .ok ((trails.filter fun t => mode.accepts t.isDir &&
                (compiled.regex.fullMatch (along compiled.root t.way).toList &&
                  !Pattern.isExcluded compiled.excludes (String.ofList (joinedNames t.way)) &&
                  isWithin (compiled.search mode).limit t.way.length)).map
                    fun t => matchedPath compiled.root t.way) := by
            intro mode
            rw [hmatch, hresult, Except.map]
            refine congrArg (fun trails => Except.ok (List.map _ trails)) ?_
            apply List.filter_congr
            intro t _
            simp only [Search.selects, Pattern.search, Trail.visit, Bool.and_assoc]
          exact Or.inr ⟨_, _, _, hmode .files, hmode .directories, hmode .any,
            dividedByMode_map_filter honce Trail.isDir _⟩
  | false =>
      obtain ⟨path?, hpath⟩ := exists_literal d compiled (globAndExcludes pattern).1
      have hmode : ∀ mode, d.matchPattern pattern mode =
          .ok ((path?.toList.filter fun path => mode.accepts (d.isDirectory path) &&
            !Pattern.isExcluded compiled.excludes (name compiled.glob)).map id) := by
        intro mode
        rw [matchPattern_of_literal hcompile hstar, List.map_id]
        exact congrArg Except.ok (hpath compiled.excludes mode)
      have honce : (path?.toList.map id).Nodup := by
        cases path? <;> simp
      exact Or.inr ⟨_, _, _, hmode .files, hmode .directories, hmode .any,
        dividedByMode_map_filter honce d.isDirectory _⟩

/-! ## Matches on a machine -/

namespace Act

variable {κ : Type}

/-- The empty pattern describes nothing. -/
theorem matchPattern_empty (d : Disk) (mode : Mode) : d.matchPattern "" mode = .ok [] := by
  have hmissing : d.entryExists "" = false := rfl
  have hglob : (Pattern.compile "").glob = "" := by decide
  rw [matchPattern_of_literal rfl (by rw [hglob]; decide)]
  unfold Disk.findLiteral
  dsimp only
  have hspelling : (globAndExcludes "").1 = "" := by decide
  rw [hspelling, hglob, hmissing]
  rfl

theorem resultOf_matchPaths (pattern : String) (mode : Mode) (m : Machine κ) :
    resultOf (matchPaths pattern mode) m =
      (m.disk.matchPattern pattern mode).mapError fun code => .system code none none := by
  obtain ⟨line, hrun⟩ := run_matchPaths pattern mode m
  rw [resultOf_of_run hrun]
  split
  · next hempty =>
      rw [String.isEmpty_iff.mp hempty, matchPattern_empty]
      rfl
  · rfl

theorem resultOf_matchPaths_withExcludes {m : Machine κ} {here main : String}
    {excludes : List String} (hnames : m.disk.tree.WellNamed) (hhere : isAbsolute here = true)
    (hmain : '|' ∉ main.toList) (hexcludes : ∀ e ∈ excludes, '|' ∉ e.toList) (mode : Mode) :
    resultOf (matchPaths (withExcludes main excludes) mode) m =
      (resultOf (matchPaths main mode) m).map (leaveOver here main excludes) := by
  rw [resultOf_matchPaths, resultOf_matchPaths,
    matchPattern_withExcludes hmain hexcludes hnames hhere]
  cases m.disk.matchPattern main mode <;> rfl

theorem matchPaths_divided {m : Machine κ} (hnames : m.disk.tree.WellNamed)
    (hdistinct : m.disk.tree.Distinct) (pattern : String) :
    (∃ failure, ∀ mode, resultOf (matchPaths pattern mode) m = .error failure) ∨
      ∃ files directories both, resultOf (matchPaths pattern .files) m = .ok files ∧
        resultOf (matchPaths pattern .directories) m = .ok directories ∧
        resultOf (matchPaths pattern .any) m = .ok both ∧
        DividedByMode files directories both := by
  simp only [resultOf_matchPaths]
  rcases matchPattern_divided hnames hdistinct pattern with
    ⟨code, hcode⟩ | ⟨files, directories, both, hfiles, hdirectories, hboth, hdivided⟩
  · refine Or.inl ⟨.system code none none, fun mode => ?_⟩
    rw [hcode]
    rfl
  · refine Or.inr ⟨files, directories, both, ?_, ?_, ?_, hdivided⟩
    · rw [hfiles]
      rfl
    · rw [hdirectories]
      rfl
    · rw [hboth]
      rfl

/-- Globs to exclude and modes are filters of one list.  The globs to exclude leave over the paths
that are in the language of none of them, whatever their order, and the modes for files and for
directories divide the list of the mode for both. -/
theorem match_filters {m : Machine κ} {here : String} (hnames : m.disk.tree.WellNamed)
    (hdistinct : m.disk.tree.Distinct) (hhere : isAbsolute here = true) :
    (∀ (main : String) (excludes : List String) (mode : Mode), '|' ∉ main.toList →
      (∀ e ∈ excludes, '|' ∉ e.toList) →
        resultOf (matchPaths (withExcludes main excludes) mode) m =
          (resultOf (matchPaths main mode) m).map (leaveOver here main excludes)) ∧
    (∀ (main : String) (excludes others : List String) (mode : Mode), '|' ∉ main.toList →
      (∀ e ∈ excludes, '|' ∉ e.toList) → (∀ e ∈ others, '|' ∉ e.toList) →
      (∀ e, e ≠ "" → (e ∈ excludes ↔ e ∈ others)) →
        resultOf (matchPaths (withExcludes main excludes) mode) m =
          resultOf (matchPaths (withExcludes main others) mode) m) ∧
    ∀ pattern : String,
      (∃ failure, ∀ mode, resultOf (matchPaths pattern mode) m = .error failure) ∨
      ∃ files directories both, resultOf (matchPaths pattern .files) m = .ok files ∧
        resultOf (matchPaths pattern .directories) m = .ok directories ∧
        resultOf (matchPaths pattern .any) m = .ok both ∧
        DividedByMode files directories both := by
  refine ⟨?_, ?_, matchPaths_divided hnames hdistinct⟩
  · intro main excludes mode hmain hexcludes
    exact resultOf_matchPaths_withExcludes hnames hhere hmain hexcludes mode
  · intro main excludes others mode hmain hexcludes hothers hsame
    have hleft : leaveOver here main excludes = leaveOver here main others := by
      funext paths
      apply List.filter_congr
      intro path _
      simp only [excludes_congr hsame]
    rw [resultOf_matchPaths_withExcludes hnames hhere hmain hexcludes,
      resultOf_matchPaths_withExcludes hnames hhere hmain hothers, hleft]

/-- A machine with two sources below its library and one beside it. -/
def sampleMachine : Machine Unit where
  disk := sampleDisk
  environment := []

/-- The sources, but not those in the library itself. -/
theorem match_filters_sampleMachine :
    sampleMachine.disk.tree.WellNamed ∧ sampleMachine.disk.tree.Distinct ∧
      isAbsolute "/" = true ∧
      resultOf (matchPaths (withExcludes "**.c" ["", "lib/*.c"]) .files) sampleMachine =
        .ok ["m.c", "lib/deep/b.c"] ∧
      resultOf (matchPaths (withExcludes "**.c" ["lib/*.c", "lib/*.c"]) .files) sampleMachine =
        .ok ["m.c", "lib/deep/b.c"] := by
  have hnames : sampleMachine.disk.tree.WellNamed := by
    simp only [sampleMachine, sampleDisk, Node.WellNamed, Node.WellNamedEntries, and_true, true_and]
    decide
  have hdistinct : sampleMachine.disk.tree.Distinct := by
    simp [sampleMachine, sampleDisk, Node.Distinct, Node.DistinctEntries]
  have hhere : isAbsolute "/" = true := by decide
  obtain ⟨hleave, horder, -⟩ := match_filters hnames hdistinct hhere
  have hbare : resultOf (matchPaths "**.c" .files) sampleMachine =
      .ok ["m.c", "lib/a.c", "lib/deep/b.c"] := by
    rw [resultOf_matchPaths]
    decide
  have hkept : leaveOver "/" "**.c" ["", "lib/*.c"] ["m.c", "lib/a.c", "lib/deep/b.c"] =
      ["m.c", "lib/deep/b.c"] := by
    decide
  have hfirst : resultOf (matchPaths (withExcludes "**.c" ["", "lib/*.c"]) .files) sampleMachine =
      .ok ["m.c", "lib/deep/b.c"] := by
    rw [hleave _ _ _ (by decide) (by decide), hbare, Except.map, hkept]
  refine ⟨hnames, hdistinct, hhere, hfirst, ?_⟩
  rw [← hfirst]
  apply horder _ _ _ _ (by decide) (by decide) (by decide)
  intro e he
  simp [he]

end Act

end BuildRunner
