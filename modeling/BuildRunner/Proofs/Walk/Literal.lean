import BuildRunner.Proofs.Glob.Normal
import BuildRunner.Proofs.Walk.LookedUp

/-!
# Patterns that are looked up

A pattern without a star is not walked for: what it names is looked up.  The walk that its compiled
form describes lists the directory before its last segment and finds one entry there at most, and the
look-up comes to the same entry.  In the same way a path that a walk has found for a pattern is found
again when it is matched by itself.
-/

namespace BuildRunner

open Glob Path

/-! ## Globs without stars -/

/-- The normal form of a glob has no star of its own. -/
theorem star_not_mem_normalGlob {glob : String} (hglob : '*' ∉ glob.toList) :
    '*' ∉ (normalGlob glob).toList := by
  unfold normalGlob
  split
  · exact hglob
  · rw [String.toList_ofList]
    intro hstar
    obtain ⟨c, hc, hslash⟩ := List.mem_map.mp (mem_of_mem_normal hstar (by decide) (by decide))
    split at hslash
    · simp at hslash
    · exact hglob (hslash ▸ hc)

/-- A glob in normal form that names an entry. -/
structure IsLiteral (main : String) : Prop where
  bare : '|' ∉ main.toList
  starless : '*' ∉ main.toList
  normal : normalGlob main = main
  named : IsName (name main).toList

section

variable {main : String} (hliteral : IsLiteral main)

include hliteral

theorem takeWhile_of_literal : main.toList.takeWhile (· != '*') = main.toList := by
  rw [List.takeWhile_eq_self_iff]
  intro c hc
  rw [bne_iff_ne]
  rintro rfl
  exact hliteral.starless hc

theorem walkRest_of_literal : walkRest main = (name main).toList := by
  have hsplit := List.takeWhile_append_dropWhile (p := (· != '*')) (l := main.toList)
  have hrest := takeWhile_of_literal hliteral
  rw [hrest] at hsplit
  have hnothing := List.append_right_eq_self.mp hsplit
  rw [walkRest, hrest, hnothing, List.append_nil, name, String.toList_ofList]

theorem leadingPart_of_walkRoot_dot (hroot : walkRoot main = ".") :
    leadingPart main.toList = [] := by
  by_contra hlead
  have hwhole := takeWhile_of_literal hliteral
  have hchars : parentChars main.toList = ['.'] := by
    unfold walkRoot at hroot
    rw [hwhole] at hroot
    split at hroot
    · next hnone =>
        unfold parentChars at hnone
        dsimp only at hnone
        split at hnone
        · exact absurd hnone hlead
        · next hall =>
            obtain ⟨k, hk⟩ := exists_eq_dropSlashes_append (leadingPart main.toList)
            rw [hnone, List.nil_append] at hk
            rw [hk] at hall
            simp at hall
    · simpa using congrArg String.toList hroot
  have hend := getLast?_leadingPart hlead
  obtain ⟨k, hk⟩ := exists_eq_dropSlashes_append (leadingPart main.toList)
  have hdot : ∃ rest, main.toList = '.' :: '/' :: rest := by
    rw [← leadingPart_append_lastPart main.toList]
    unfold parentChars at hchars
    dsimp only at hchars
    split at hchars
    · rw [hchars] at hend
      simp at hend
    · rw [hchars] at hk
      cases k with
      | zero =>
          rw [hk] at hend
          simp at hend
      | succ k =>
          refine ⟨List.replicate k '/' ++ lastPart main.toList, ?_⟩
          conv_lhs => rw [hk]
          rfl
  obtain ⟨rest, hrest⟩ := hdot
  have hnormal := congrArg String.toList hliteral.normal
  rw [hrest, normalGlob] at hnormal
  split at hnormal
  · next hempty =>
      rw [String.isEmpty_iff.mp hempty] at hrest
      cases hrest
  · rw [String.toList_ofList] at hnormal
    exact normal_ne_dot_slash _ _ hnormal

theorem areNames_literal : AreNames [name main] := by
  intro n hn
  rw [List.mem_singleton.mp hn]
  exact hliteral.named

theorem toList_literal (hroot : walkRoot main ≠ ".") :
    main.toList =
      (walkRoot main).toList ++ separator (walkRoot main).toList ++ (name main).toList := by
  rw [← walkRest_of_literal hliteral]
  refine toList_eq_walkRoot_append ?_ hroot
  intro a b htwo
  rw [← hliteral.normal] at htwo
  exact normalGlob_tight htwo

/-- A literal is its own path behind the directory of its walk. -/
theorem matchedPath_walkRoot : matchedPath (walkRoot main) [name main] = main := by
  have hname := areNames_literal hliteral
  apply String.toList_injective
  by_cases hroot : walkRoot main = "."
  · have hsplit := leadingPart_append_lastPart main.toList
    rw [leadingPart_of_walkRoot_dot hliteral hroot, List.nil_append] at hsplit
    rw [hroot, matchedPath_dot (by simp) hname, String.toList_ofList]
    conv_rhs => rw [← hsplit]
    exact String.toList_ofList
  · rw [matchedPath, if_neg hroot, toList_along (by simp) hname]
    exact (toList_literal hliteral hroot).symm

end

/-! ## What the walk finds -/

theorem eq_of_mem_iff {α : Type} {a : α} {l l' : List α} (honce : l.Nodup) (honce' : l'.Nodup)
    (hall : ∀ x ∈ l, x = a) (hall' : ∀ x ∈ l', x = a) (hmem : a ∈ l ↔ a ∈ l') : l = l' := by
  have hshape : ∀ k : List α, k.Nodup → (∀ x ∈ k, x = a) → k = [] ∨ k = [a] := by
    intro k hk heq
    obtain ⟨n, rfl⟩ : ∃ n, k = List.replicate n a := ⟨_, List.eq_replicate_of_mem heq⟩
    have hle := List.nodup_replicate.mp hk
    interval_cases n
    · exact Or.inl rfl
    · exact Or.inr rfl
  rcases hshape l honce hall with rfl | rfl <;> rcases hshape l' honce' hall' with rfl | rfl
  · rfl
  · simp at hmem
  · simp at hmem
  · rfl

/-- What the walk of a literal finds, for a start, a kind of entry there and a mode. -/
structure Disk.FindsLiteral (d : Disk) (main : String) (mode : Mode) (place : Place)
    (kind : Kind) : Prop where
  start : d.StartsAt (walkRoot main) place
  entry : place.kindOf d.tree (name main) = some kind
  wanted : mode.accepts (kind.countsAsDir (d.isDirectory (along (walkRoot main) [name main]))) = true

/-- The entries of the directory where a walk starts are those on its first level. -/
theorem exists_trail_singleton_iff {d : Disk} (hdistinct : d.tree.Distinct) (root name : String)
    (place : Place) (mode : Mode) :
    (∃ t ∈ (Listed.dir (d.listing root place)).trails,
        t.way = [name] ∧ mode.accepts t.isDir = true) ↔
      ∃ kind, place.kindOf d.tree name = some kind ∧
        mode.accepts (kind.countsAsDir (d.isDirectory (along root [name]))) = true := by
  constructor
  · rintro ⟨⟨way, isDir⟩, hlisted, hway, hmode⟩
    dsimp only at hway hmode
    subst hway
    obtain ⟨hlost, -, -, kind, hkind, hisDir⟩ := (mem_trails_listing hdistinct root place).mp hlisted
    dsimp only at hkind hisDir
    refine ⟨kind, ?_, hisDir ▸ hmode⟩
    rw [Place.kindOf_eq, if_pos hlost]
    exact hkind
  · rintro ⟨kind, hkind, hmode⟩
    rw [Place.kindOf_eq] at hkind
    split at hkind
    · next hlost =>
        refine ⟨⟨[name], kind.countsAsDir (d.isDirectory (along root [name]))⟩, ?_, rfl, hmode⟩
        exact (mem_trails_listing hdistinct root place).mpr
          ⟨hlost, by simp, withinReach_singleton root name, kind, hkind, rfl⟩
    · cases hkind

section

variable {main : String} (hliteral : IsLiteral main) {excludes : List String}
  (hexcludes : ∀ e ∈ excludes, '|' ∉ e.toList)

include hliteral hexcludes

theorem compile_literal :
    (Pattern.compile (withExcludes main excludes)).glob = main ∧
      (Pattern.compile (withExcludes main excludes)).root = walkRoot main ∧
        (Pattern.compile (withExcludes main excludes)).excludes = excludeRegexes excludes := by
  have hglob := compile_glob_withExcludes hliteral.bare hexcludes
  rw [hliteral.normal] at hglob
  refine ⟨hglob, by rw [Pattern.compile_root, hglob], ?_⟩
  rw [compile_withExcludes hliteral.bare hexcludes]

/-- Of all ways below the root only the one by the name of the literal is selected. -/
theorem selects_literal_iff {mode : Mode} {t : Trail} (hne : t.way ≠ []) (hway : AreNames t.way) :
    ((Pattern.compile (withExcludes main excludes)).search mode).selects
        (t.visit (walkRoot main)) = true ↔
      t.way = [name main] ∧ mode.accepts t.isDir = true ∧ ¬Excludes excludes (name main) := by
  obtain ⟨hglob, hroot, hexcluded⟩ := compile_literal hliteral hexcludes
  have hname := areNames_literal hliteral
  have hmatch : (Pattern.compile (withExcludes main excludes)).regex.fullMatch
      (along (walkRoot main) t.way).toList = true ↔ t.way = [name main] := by
    rw [← hroot, fullMatch_along_iff _ hne hway, hglob, hroot,
      matches_tokens_iff_of_starless hliteral.starless, String.toList_inj]
    constructor
    · intro hpath
      exact matchedPath_injective hne hway (by simp) hname
        (hpath.trans (matchedPath_walkRoot hliteral).symm)
    · intro hpath
      rw [hpath, matchedPath_walkRoot hliteral]
  have hbelow : t.way = [name main] → (t.visit (walkRoot main)).below = name main := by
    intro hpath
    rw [Trail.visit, hpath]
    exact String.ofList_toList
  have hisDir : (t.visit (walkRoot main)).isDir = t.isDir := rfl
  simp only [Search.selects, Pattern.search, Bool.and_eq_true, hexcluded, Bool.not_eq_true',
    isExcluded_eq_decide, decide_eq_false_iff_not, Trail.visit_path, hmatch, hisDir]
  constructor
  · rintro ⟨⟨hmode, hpath⟩, hnone⟩
    exact ⟨hpath, hmode, hbelow hpath ▸ hnone⟩
  · rintro ⟨hpath, hmode, hnone⟩
    exact ⟨⟨hmode, hpath⟩, (hbelow hpath).symm ▸ hnone⟩

/-- The walk of a literal finds the literal itself or nothing. -/
theorem find_literal {d : Disk} {here : String} (hnames : d.tree.WellNamed)
    (hdistinct : d.tree.Distinct) (hhere : d.currentPath = .ok here) (mode : Mode) :
    ∃ paths, d.find (walkRoot main)
        ((Pattern.compile (withExcludes main excludes)).search mode) = .ok paths ∧
      (unanchored (walkRoot main) paths).Nodup ∧
      (∀ path ∈ unanchored (walkRoot main) paths, path = main) ∧
      (main ∈ unanchored (walkRoot main) paths ↔
        ¬Excludes excludes (name main) ∧ ∃ place kind, d.FindsLiteral main mode place kind) := by
  have hlimit := isWithin_limit_one ((Pattern.compile (withExcludes main excludes)).search mode)
  by_cases hstart : ∃ place, d.StartsAt (walkRoot main) place
  · obtain ⟨place, hnul, hlocate⟩ := hstart
    have htrails := trailsBelow_listing hnames hlocate
    have hselected : ∀ t ∈ (Listed.dir (d.listing (walkRoot main) place)).trails,
        (((Pattern.compile (withExcludes main excludes)).search mode).selects
            (t.visit (walkRoot main)) &&
          isWithin ((Pattern.compile (withExcludes main excludes)).search mode).limit
            t.way.length) = true ↔
          t.way = [name main] ∧ mode.accepts t.isDir = true ∧ ¬Excludes excludes (name main) := by
      intro t ht
      obtain ⟨hne, hway⟩ := htrails.names t ht
      rw [Bool.and_eq_true, selects_literal_iff hliteral hexcludes hne hway, and_iff_left_iff_imp]
      rintro ⟨hpath, -⟩
      rw [hpath]
      exact hlimit
    refine ⟨_, findSelected_eq hnames hhere hnul hlocate hlimit _, ?_⟩
    rw [unanchored_along]
    refine ⟨(nodup_matchedPaths htrails hdistinct).sublist (List.filter_sublist.map _), ?_, ?_⟩
    · intro path hpath
      obtain ⟨t, ht, rfl⟩ := List.mem_map.mp hpath
      obtain ⟨hmem, hkept⟩ := List.mem_filter.mp ht
      rw [((hselected t hmem).mp hkept).1, matchedPath_walkRoot hliteral]
    · have hentry := exists_trail_singleton_iff hdistinct (walkRoot main) (name main) place mode
      constructor
      · intro hmem
        obtain ⟨t, ht, -⟩ := List.mem_map.mp hmem
        obtain ⟨hlisted, hkept⟩ := List.mem_filter.mp ht
        obtain ⟨hpath, hmode, hnone⟩ := (hselected t hlisted).mp hkept
        obtain ⟨kind, hkind, hwanted⟩ := hentry.mp ⟨t, hlisted, hpath, hmode⟩
        exact ⟨hnone, place, kind, ⟨hnul, hlocate⟩, hkind, hwanted⟩
      · rintro ⟨hnone, other, kind, hother, hkind, hwanted⟩
        have hsame : other = place := Disk.StartsAt.unique ⟨hnul, hlocate⟩ hother
        subst hsame
        obtain ⟨t, hlisted, hpath, hmode⟩ := hentry.mpr ⟨kind, hkind, hwanted⟩
        have hkept := (hselected t hlisted).mpr ⟨hpath, hmode, hnone⟩
        refine List.mem_map.mpr ⟨t, List.mem_filter.mpr ⟨hlisted, hkept⟩, ?_⟩
        rw [hpath, matchedPath_walkRoot hliteral]
  · have hnil : d.findSelected (walkRoot main)
        ((Pattern.compile (withExcludes main excludes)).search mode).limit
        ((Pattern.compile (withExcludes main excludes)).search mode).selects = .ok [] := by
      rcases exists_place_or_findSelected_eq_nil d (walkRoot main) with
        ⟨place, hnul, hlocate⟩ | hnil
      · exact absurd ⟨place, hnul, hlocate⟩ hstart
      · exact hnil _ _
    have hempty : unanchored (walkRoot main) [] = [] := by
      unfold unanchored
      split <;> rfl
    refine ⟨[], hnil, ?_⟩
    rw [hempty]
    refine ⟨List.nodup_nil, by simp, ?_⟩
    simp only [List.not_mem_nil, false_iff]
    rintro ⟨-, place, kind, hplace, -⟩
    exact hstart ⟨place, hplace⟩

end

/-! ## What the look-up finds -/

section

variable {d : Disk} {main : String} (hliteral : IsLiteral main) {excludes : List String}
  (hexcludes : ∀ e ∈ excludes, '|' ∉ e.toList)

include hliteral hexcludes

/-- The look-up of a literal finds the literal itself or nothing. -/
theorem findLiteral_of_literal (mode : Mode) :
    d.findLiteral (Pattern.compile (withExcludes main excludes)) main mode =
      if d.entryExists main = true ∧ mode.accepts (d.isDirectory main) = true ∧
        ¬Excludes excludes (name main) then [main] else [] := by
  obtain ⟨hglob, -, hexcluded⟩ := compile_literal hliteral hexcludes
  unfold Disk.findLiteral
  rw [hglob, hexcluded]
  cases hexists : d.entryExists main with
  | false => simp
  | true => simp [isExcluded_eq_decide]

end

section

variable {d : Disk} {main : String} (hliteral : IsLiteral main)

include hliteral

theorem namesEntry_literal : NamesEntry main (name main) := by
  have hmatched : NamesEntry (matchedPath (walkRoot main) ([] ++ [name main])) (name main) :=
    namesEntry_matchedPath (areNames_literal hliteral)
  rwa [List.nil_append, matchedPath_walkRoot hliteral] at hmatched

/-- The look-up of a literal begins where its walk starts. -/
theorem enter_literal :
    enter d.tree linkLimit (startPlace d.cwd main) (pathNames main).dropLast =
      enter d.tree linkLimit (startPlace d.cwd (walkRoot main)) (pathNames (walkRoot main)) := by
  have hstart := walkRoot_ne_empty main
  have hway : AreNames ([] ++ [name main]) := areNames_literal hliteral
  have hmatched := enter_matchedPath (d := d) hstart hway
  rw [enter_along hstart hway, List.nil_append, matchedPath_walkRoot hliteral] at hmatched
  rw [hmatched]
  cases enter d.tree linkLimit (startPlace d.cwd (walkRoot main)) (pathNames (walkRoot main)) with
  | error code => rfl
  | ok found => exact enter_nil _ _ _

theorem exists_eq_walkRoot_append (hroot : walkRoot main ≠ ".") :
    ∃ rest, main = walkRoot main ++ rest := by
  refine ⟨String.ofList (separator (walkRoot main).toList ++ (name main).toList), ?_⟩
  apply String.toList_injective
  rw [String.toList_append, String.toList_ofList, ← List.append_assoc]
  exact toList_literal hliteral hroot

variable (hshort : main.utf8ByteSize < pathLimit)

include hshort

/-- A literal that names an entry has a walk that starts somewhere. -/
theorem exists_startsAt (hexists : d.entryExists main = true) :
    ∃ place, d.StartsAt (walkRoot main) place := by
  have hpath := namesEntry_literal hliteral
  have hnul := Disk.hasNul_of_entryExists hexists
  rw [Disk.entryExists_eq] at hexists
  have hroot : Disk.hasNul (walkRoot main) = false ∧
      (walkRoot main).utf8ByteSize < pathLimit := by
    by_cases hdot : walkRoot main = "."
    · rw [hdot]
      decide
    · obtain ⟨rest, hrest⟩ := exists_eq_walkRoot_append hliteral hdot
      rw [Disk.hasNul_eq_false_iff, hrest, String.toList_append] at hnul
      rw [hrest, String.utf8ByteSize_append] at hshort
      rw [Disk.hasNul_eq_false_iff]
      exact ⟨fun hmem => hnul (List.mem_append_left _ hmem), by omega⟩
  have hne : main ≠ "" := by
    rintro rfl
    exact hliteral.named.ne_nil rfl
  have hcheck := checkPath_of_short hne hshort
  have hcheck' := checkPath_of_short (walkRoot_ne_empty main) hroot.2
  cases henter : enter d.tree linkLimit (startPlace d.cwd (walkRoot main))
      (pathNames (walkRoot main)) with
  | ok found =>
      exact ⟨found.1, hroot.1, (locate_eq_directory_iff hcheck').mpr ⟨found.2, henter⟩⟩
  | error code =>
      have htip : d.tip main = .error code := by
        rw [Disk.tip_eq d hpath, hcheck, enter_literal hliteral, henter]
        rfl
      rw [Disk.kindOf_of_tip_error hpath htip] at hexists
      cases hexists

/-- The walk of a literal does not write a path that is too long. -/
theorem utf8ByteSize_along_literal (hname : (name main).utf8ByteSize ≤ greatestName) :
    (along (walkRoot main) [name main]).utf8ByteSize < pathLimit := by
  have hway := areNames_literal hliteral
  have hmatched := matchedPath_walkRoot hliteral
  rw [← anchored_matchedPath (by simp) hway, hmatched, anchored]
  split
  · next hdot =>
      rw [hdot, matchedPath_dot (by simp) hway] at hmatched
      have hmain : name main = main := String.ofList_toList.symm.trans hmatched
      have hanchor : "./".utf8ByteSize = 2 := by decide
      rw [hmain] at hname
      rw [String.utf8ByteSize_append, hanchor]
      unfold greatestName at hname
      unfold pathLimit
      omega
  · exact hshort

/-- A literal names an entry where its walk finds one, and both see the same kind of entry. -/
theorem lookedUp_iff (htree : d.tree.Accepted) (mode : Mode) :
    d.entryExists main = true ∧ mode.accepts (d.isDirectory main) = true ↔
      ∃ place kind, d.FindsLiteral main mode place kind := by
  have hway : AreNames ([] ++ [name main]) := areNames_literal hliteral
  have hmatched : matchedPath (walkRoot main) ([] ++ [name main]) = main :=
    matchedPath_walkRoot hliteral
  have hkinds : ∀ place, d.StartsAt (walkRoot main) place → Disk.hasNul main = false →
      d.kindOf false main = place.kindOf d.tree (name main) := by
    intro place hplace hnul
    have hfound := Disk.kindOf_matchedPath htree hway hplace.found
      (fun left => enter_nil _ _ _) (hmatched.symm ▸ hnul) (hmatched.symm ▸ hshort)
    rwa [hmatched] at hfound
  have hdirs : ∀ place kind, d.StartsAt (walkRoot main) place →
      place.kindOf d.tree (name main) = some kind → Disk.hasNul main = false ∧
        d.isDirectory main =
          kind.countsAsDir (d.isDirectory (along (walkRoot main) [name main])) := by
    intro place kind hplace hkind
    have haccepted := Disk.accepted_of_kindOf htree hkind
    have hnul : Disk.hasNul (along (walkRoot main) [name main]) = false :=
      Disk.hasNul_along (by simp) (areNames_literal hliteral) hplace.no_nul
        (by simpa using haccepted.no_nul)
    have hdir := Disk.isDirectory_matchedPath htree hway hplace.found (fun left => enter_nil _ _ _)
      hkind hnul (utf8ByteSize_along_literal hliteral hshort haccepted.short)
    rw [hmatched] at hdir
    have hmain := Disk.hasNul_matchedPath hnul
    rw [matchedPath_walkRoot hliteral] at hmain
    exact ⟨hmain, hdir⟩
  constructor
  · rintro ⟨hexists, hmode⟩
    obtain ⟨place, hplace⟩ := exists_startsAt hliteral hshort hexists
    have hnul := Disk.hasNul_of_entryExists hexists
    rw [Disk.entryExists_eq, hkinds place hplace hnul, Option.isSome_iff_exists] at hexists
    obtain ⟨kind, hkind⟩ := hexists
    refine ⟨place, kind, hplace, hkind, ?_⟩
    rw [← (hdirs place kind hplace hkind).2]
    exact hmode
  · rintro ⟨place, kind, hplace, hkind, hwanted⟩
    obtain ⟨hnul, hdir⟩ := hdirs place kind hplace hkind
    rw [Disk.entryExists_eq, hkinds place hplace hnul, hkind, hdir]
    exact ⟨rfl, hwanted⟩

end

/-! ## One path or none -/

/-- A path that names an entry of the right kind is all that it matches. -/
theorem matchPattern_of_entry {d : Disk} {path : String} {mode : Mode} (hbare : '|' ∉ path.toList)
    (hstarless : '*' ∉ path.toList) (hexists : d.entryExists path = true)
    (hmode : mode.accepts (d.isDirectory path) = true) : d.matchPattern path mode = .ok [path] := by
  have hbarely := globAndExcludes_bare hbare
  have hglob := Pattern.compile_glob path
  have hnone : (Pattern.compile path).excludes = [] := by
    unfold Pattern.compile
    rw [hbarely]
    rfl
  rw [hbarely] at hglob
  have hcontains : (Pattern.compile path).glob.toList.contains '*' = false := by
    rw [hglob, Bool.eq_false_iff, ne_eq, List.contains_iff_mem]
    exact star_not_mem_normalGlob hstarless
  rw [matchPattern_of_literal rfl hcontains, hbarely]
  unfold Disk.findLiteral
  rw [hnone]
  simp [hexists, hmode, Pattern.isExcluded]

section

variable {d : Disk} {here : String} (htree : d.tree.Accepted) (hdistinct : d.tree.Distinct)
  (hhere : d.currentPath = .ok here) (mode : Mode)

include htree hdistinct hhere

/-- The look-up of a literal gives what its walk finds. -/
theorem matchPattern_literal {main : String} (hliteral : IsLiteral main) {excludes : List String}
    (hexcludes : ∀ e ∈ excludes, '|' ∉ e.toList) (hshort : main.utf8ByteSize < pathLimit) :
    ∃ paths, d.find (walkRoot main)
        ((Pattern.compile (withExcludes main excludes)).search mode) = .ok paths ∧
      d.matchPattern (withExcludes main excludes) mode =
        .ok (unanchored (walkRoot main) paths) := by
  have hnames := Node.wellNamed_of_accepted d.tree htree
  have hglob := (compile_literal hliteral hexcludes).1
  obtain ⟨paths, hfound, honce, hall, hmem⟩ :=
    find_literal hliteral hexcludes hnames hdistinct hhere mode
  have hcontains : (Pattern.compile (withExcludes main excludes)).glob.toList.contains '*' =
      false := by
    rw [hglob, Bool.eq_false_iff, ne_eq, List.contains_iff_mem]
    exact hliteral.starless
  refine ⟨paths, hfound, ?_⟩
  rw [matchPattern_of_literal rfl hcontains,
    globAndExcludes_withExcludes hliteral.bare hexcludes, findLiteral_of_literal hliteral hexcludes]
  refine congrArg Except.ok (eq_of_mem_iff (a := main) ?_ honce ?_ hall ?_)
  · split <;> simp
  · split <;> simp
  · rw [hmem, ← lookedUp_iff hliteral hshort htree mode]
    split
    · next hkept => exact ⟨fun _ => ⟨hkept.2.2, hkept.1, hkept.2.1⟩, fun _ => List.mem_singleton_self _⟩
    · next hkept =>
        simp only [List.not_mem_nil, false_iff]
        rintro ⟨hnone, hexists, hmode⟩
        exact hkept ⟨hexists, hmode, hnone⟩

omit hdistinct in
/-- All that searches below a root can find is one list, that of the trails behind its start. -/
theorem exists_trails_of_startsAt (root : String) :
    ∃ trails : List Trail,
      (∀ t ∈ trails, ∃ place, d.StartsAt root place ∧
        t ∈ (Listed.dir (d.listing root place)).trails) ∧
      ∀ limit selects, isWithin limit 1 = true →
        d.findSelected root limit selects = (Except.ok trails).map fun trails =>
          (trails.filter fun t => selects (t.visit root) && isWithin limit t.way.length).map
            fun t => along root t.way := by
  rcases exists_place_or_findSelected_eq_nil d root with ⟨place, hnul, hlocate⟩ | hnil
  · refine ⟨_, fun t ht => ⟨place, ⟨hnul, hlocate⟩, ht⟩, fun limit selects hlimit => ?_⟩
    exact findSelected_eq (Node.wellNamed_of_accepted d.tree htree) hhere hnul hlocate hlimit selects
  · exact ⟨[], by simp, fun limit selects _ => hnil limit selects⟩

omit hdistinct in
/-- A path that a walk has found for a pattern belongs to one of the trails of the walk. -/
theorem exists_trail_of_matchPattern {pattern path : String} {paths : List String}
    (hstar : '*' ∈ (Pattern.compile pattern).glob.toList)
    (hmatch : d.matchPattern pattern mode = .ok paths) (hpath : path ∈ paths) :
    ∃ place, d.StartsAt (Pattern.compile pattern).root place ∧
      ∃ t ∈ (Listed.dir (d.listing (Pattern.compile pattern).root place)).trails,
        path = matchedPath (Pattern.compile pattern).root t.way ∧ mode.accepts t.isDir = true := by
  obtain ⟨trails, htrails, hfound⟩ :=
    exists_trails_of_startsAt htree hhere (Pattern.compile pattern).root
  have hmatched := matchPattern_of_star rfl (List.contains_iff_mem.mpr hstar) hfound mode
  rw [hmatch, Except.map, Except.ok.injEq] at hmatched
  rw [hmatched] at hpath
  obtain ⟨t, ht, rfl⟩ := List.mem_map.mp hpath
  obtain ⟨hlisted, hkept⟩ := List.mem_filter.mp ht
  obtain ⟨place, hplace, hmem⟩ := htrails t hlisted
  simp only [Search.selects, Pattern.search, Bool.and_eq_true] at hkept
  exact ⟨place, hplace, t, hmem, rfl, hkept.1.1.1⟩

/-- A path that a walk has found for a pattern is found by itself. -/
theorem matchPattern_of_mem {pattern path : String} {paths : List String}
    (hstar : '*' ∈ (Pattern.compile pattern).glob.toList)
    (hmatch : d.matchPattern pattern mode = .ok paths) (hpath : path ∈ paths)
    (hbare : '|' ∉ path.toList) (hstarless : '*' ∉ path.toList)
    (hshort : (anchored (Pattern.compile pattern).root path).utf8ByteSize < pathLimit) :
    d.matchPattern path mode = .ok [path] := by
  obtain ⟨place, hplace, t, hlisted, hmatched, hmode⟩ :=
    exists_trail_of_matchPattern htree hhere mode hstar hmatch hpath
  rw [hmatched] at hshort
  obtain ⟨hexists, hdir⟩ := Disk.lookedUp_of_mem_trails htree hdistinct hplace hlisted hshort
  rw [← hmatched] at hexists hdir
  exact matchPattern_of_entry hbare hstarless hexists (hdir ▸ hmode)

end

/-! ## Paths that are too long -/

section

variable (n : Nat) {last : String} (hlast : IsName last.toList)

include hlast

theorem isLiteral_upward (hbare : '|' ∉ last.toList) (hstarless : '*' ∉ last.toList)
    (hslash : '\\' ∉ last.toList) : IsLiteral (upward (n + 1) ++ last) := by
  have hfree : ∀ c, c ∉ last.toList → c ≠ '.' → c ≠ '/' → c ∉ (upward (n + 1) ++ last).toList := by
    intro c hc hdot hsep hmem
    rw [String.toList_append] at hmem
    rcases List.mem_append.mp hmem with hfront | hback
    · rcases mem_upward hfront with h | h
      · exact hdot h
      · exact hsep h
    · exact hc hback
  have hnormal : IsNormalForm (upward (n + 1) ++ last).toList := by
    refine ⟨hfree '\\' hslash (by decide) (by decide), ?_⟩
    rw [String.toList_append]
    exact exists_upward_eq_text n hlast
  refine ⟨hfree '|' hbare (by decide) (by decide), hfree '*' hstarless (by decide) (by decide),
    hnormal.normalGlob_eq, ?_⟩
  rw [name_upward n hlast]
  exact hlast

theorem walkRoot_upward (hliteral : IsLiteral (upward (n + 1) ++ last)) :
    walkRoot (upward (n + 1) ++ last) = upward n ++ ".." := by
  unfold walkRoot
  rw [takeWhile_of_literal hliteral, String.toList_append, parentChars_upward n hlast]
  split
  · next hnil => simp at hnil
  · apply String.toList_injective
    rw [String.toList_ofList, String.toList_append]
    rfl

end

theorem pathNames_upward (n : Nat) :
    pathNames (upward n ++ "..") = List.replicate (n + 1) ".." := by
  have hsegments : segments (upward n ++ "..").toList = List.replicate (n + 1) ['.', '.'] := by
    have hdots : segments "..".toList = [['.', '.']] := segments_of_not_mem (by decide)
    rw [String.toList_append, segments_upward, hdots, List.replicate_succ']
  rw [pathNames, hsegments, List.filter_replicate_of_pos (by decide), List.map_replicate]

/-- Above the root there is nothing. -/
theorem enter_upward (tree : Node) (links n : Nat) :
    enter tree links Place.root (List.replicate n "..") = .ok (Place.root, links) := by
  have hdescend : descend tree Place.root (List.replicate n "..") = .arrived Place.root := by
    induction n with
    | zero => rfl
    | succ n ih =>
        rw [List.replicate_succ, descend_cons, if_neg (by decide), if_pos rfl]
        exact ih
  unfold enter
  rw [hdescend]

/-- A way up that is not too long leads to the root from there. -/
theorem startsAt_upward {d : Disk} (hcwd : d.cwd = Place.root) {n : Nat}
    (hshort : 3 * n + 2 < pathLimit) : d.StartsAt (upward n ++ "..") Place.root := by
  have hsize : (upward n ++ "..").utf8ByteSize = 3 * n + 2 := by
    have hdots : "..".utf8ByteSize = 2 := by decide
    rw [String.utf8ByteSize_append, utf8ByteSize_upward, hdots]
  have hne : upward n ++ ".." ≠ "" := by
    intro hempty
    rw [hempty] at hsize
    have hnone : "".utf8ByteSize = 0 := by decide
    omega
  have hnul : Disk.hasNul (upward n ++ "..") = false := by
    rw [Disk.hasNul_eq_false_iff, String.toList_append]
    intro hmem
    rcases List.mem_append.mp hmem with hfront | hback
    · rcases mem_upward hfront with h | h <;> simp at h
    · simp at hback
  have hstart : startPlace d.cwd (upward n ++ "..") = Place.root := by
    rw [startPlace, hcwd, ite_self]
  refine ⟨hnul, (locate_eq_directory_iff (checkPath_of_short hne (hsize ▸ hshort))).mpr ?_⟩
  refine ⟨linkLimit, ?_⟩
  rw [hstart, pathNames_upward]
  exact enter_upward d.tree linkLimit (n + 1)

namespace Disk

/-- A path that is too long is not looked up. -/
theorem entryExists_of_long {d : Disk} {path : String} (hlong : pathLimit ≤ path.utf8ByteSize) :
    d.entryExists path = false := by
  rw [entryExists, node?, status, locate_of_long hlong]
  split <;> rfl

end Disk

namespace Act

variable {κ : Type}

/-- A machine with a link that leads nowhere below its library, and a link to the library. -/
def linksMachine : Machine Unit where
  disk := {
    tree := .dir [("lib", .dir [("a.c", .file [] false none), ("gone", .link "nowhere")] none),
      ("l", .link "lib")] none
    cwd := .root }
  environment := []

/-- A machine whose current directory is the root, with one directory in it. -/
def topMachine : Machine Unit where
  disk := { tree := .dir [("tmp", .empty)] none, cwd := .root }
  environment := []

/-- The path of the directory by way of many directories above. -/
def farPath : String := upward 1365 ++ "tmp"

end Act

end BuildRunner
