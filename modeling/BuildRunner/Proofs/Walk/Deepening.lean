import BuildRunner.Proofs.Glob.Deepening
import BuildRunner.Proofs.Walk.Filters

/-!
# Two stars for one

A pattern with two stars for one is walked for from the same directory, but down to any depth, and the
expression for the two stars takes slashes.  So it describes what the first pattern describes, except
for names in which the star stands for a line break: the expression for one star takes it, the one for
two stars does not.
-/

namespace BuildRunner

open Glob Path

/-- Of the paths of a pattern, those of a deeper one have all in which no line break stands for the
star; and all paths without a line break, in their order. -/
structure Reaches (front rest : List Char) (paths deeper : List String) : Prop where
  kept : ∀ path ∈ paths, ∀ piece, Between front rest piece path.toList → '\n' ∉ piece →
    path ∈ deeper
  inOrder : (paths.filter fun path => !path.toList.contains '\n').Sublist deeper

theorem filter_sublist_filter {α : Type} {p q : α → Bool} {l : List α}
    (hpq : ∀ a ∈ l, p a = true → q a = true) : (l.filter p).Sublist (l.filter q) := by
  have hboth : l.filter p = (l.filter q).filter p := by
    rw [List.filter_filter]
    apply List.filter_congr
    intro a ha
    cases hp : p a with
    | false => rfl
    | true => rw [hpq a ha hp, Bool.and_self]
  rw [hboth]
  exact List.filter_sublist

section

variable {d : Disk} {main deep : String} {front rest : List Char}
  (hdeepens : Deepens front rest (normalGlob main) (normalGlob deep))
  (hmain : '|' ∉ main.toList) (hdeep : '|' ∉ deep.toList) {excludes : List String}
  (hexcludes : ∀ e ∈ excludes, '|' ∉ e.toList)

include hdeepens hmain hdeep hexcludes

theorem root_deepened : (Pattern.compile (withExcludes deep excludes)).root =
    (Pattern.compile (withExcludes main excludes)).root := by
  rw [Pattern.compile_root, Pattern.compile_root, compile_glob_withExcludes hmain hexcludes,
    compile_glob_withExcludes hdeep hexcludes, hdeepens.walkRoot_eq]

omit hdeep in
/-- Something stands for the star in the path of an entry that is selected. -/
theorem exists_between (mode : Mode) {t : Trail} (hne : t.way ≠ []) (hway : AreNames t.way)
    (hselects : ((Pattern.compile (withExcludes main excludes)).search mode).selects
      (t.visit (Pattern.compile (withExcludes main excludes)).root) = true) :
    ∃ piece, Between front rest piece
      (matchedPath (Pattern.compile (withExcludes main excludes)).root t.way).toList := by
  simp only [Search.selects, Pattern.search, Bool.and_eq_true] at hselects
  have hmatch := (fullMatch_along_iff (withExcludes main excludes) hne hway).mp hselects.1.2
  rw [compile_glob_withExcludes hmain hexcludes, hdeepens.matches_single_iff] at hmatch
  obtain ⟨piece, -, hbetween⟩ := hmatch
  exact ⟨piece, hbetween⟩

/-- Where no line break stands for the star, the deeper pattern selects what the other one does. -/
theorem selects_deepened (mode : Mode) {t : Trail} (hne : t.way ≠ []) (hway : AreNames t.way)
    {piece : List Char} (hpiece : '\n' ∉ piece)
    (hbetween : Between front rest piece
      (matchedPath (Pattern.compile (withExcludes main excludes)).root t.way).toList)
    (hselects : ((Pattern.compile (withExcludes main excludes)).search mode).selects
      (t.visit (Pattern.compile (withExcludes main excludes)).root) = true) :
    ((Pattern.compile (withExcludes deep excludes)).search mode).selects
        (t.visit (Pattern.compile (withExcludes main excludes)).root) = true ∧
      isWithin ((Pattern.compile (withExcludes deep excludes)).search mode).limit
        t.way.length = true := by
  have hglob := compile_glob_withExcludes hdeep hexcludes
  have hroot := root_deepened hdeepens hmain hdeep hexcludes
  have hrecursive : (Pattern.compile (withExcludes deep excludes)).recursive = true := by
    rw [Pattern.compile_recursive, hglob, hdeepens.isRecursive]
  have hmatch : (Pattern.compile (withExcludes deep excludes)).regex.fullMatch
      (along (Pattern.compile (withExcludes main excludes)).root t.way).toList = true := by
    rw [← hroot, fullMatch_along_iff _ hne hway, hglob, hdeepens.matches_double_iff, hroot]
    exact ⟨piece, hpiece, hbetween⟩
  have hsame : (Pattern.compile (withExcludes deep excludes)).excludes =
      (Pattern.compile (withExcludes main excludes)).excludes := by
    rw [compile_withExcludes hmain hexcludes, compile_withExcludes hdeep hexcludes]
  simp only [Search.selects, Pattern.search, Bool.and_eq_true] at hselects ⊢
  refine ⟨⟨⟨hselects.1.1, hmatch⟩, ?_⟩, ?_⟩
  · rw [hsame]
    exact hselects.2
  · simp [Search.limit, hrecursive, isWithin]

theorem matchPattern_deepened (hnames : d.tree.WellNamed) (mode : Mode) :
    (∃ code, d.matchPattern (withExcludes main excludes) mode = .error code ∧
      d.matchPattern (withExcludes deep excludes) mode = .error code) ∨
    ∃ paths deeper, d.matchPattern (withExcludes main excludes) mode = .ok paths ∧
      d.matchPattern (withExcludes deep excludes) mode = .ok deeper ∧
        Reaches front rest paths deeper := by
  have hroot := root_deepened hdeepens hmain hdeep hexcludes
  have hglob := compile_glob_withExcludes hmain hexcludes
  have hglob' := compile_glob_withExcludes hdeep hexcludes
  obtain ⟨hstar, hstar'⟩ := hdeepens.contains_star
  have hbetween := fun {t : Trail} => exists_between hdeepens hmain hexcludes mode
    (t := t)
  have hselected := fun {t : Trail} => selects_deepened hdeepens hmain hdeep hexcludes mode
    (t := t)
  generalize hcompile : Pattern.compile (withExcludes main excludes) = compiled at *
  generalize hcompile' : Pattern.compile (withExcludes deep excludes) = compiled' at *
  obtain ⟨result, hproper, hfound⟩ := exists_trailsBelow hnames compiled.root
  rw [matchPattern_of_star hcompile (by rw [hglob]; exact hstar) hfound,
    matchPattern_of_star hcompile' (by rw [hglob']; exact hstar') (by rw [hroot]; exact hfound),
    hroot]
  cases result with
  | error code => exact Or.inl ⟨code, rfl, rfl⟩
  | ok trails =>
      refine Or.inr ⟨_, _, rfl, rfl, ?_, ?_⟩
      · intro path hpath piece hcut hpiece
        obtain ⟨t, ht, rfl⟩ := List.mem_map.mp hpath
        obtain ⟨hmem, hwanted⟩ := List.mem_filter.mp ht
        obtain ⟨hne, hway⟩ := (hproper trails rfl).names t hmem
        refine List.mem_map.mpr ⟨t, List.mem_filter.mpr ⟨hmem, ?_⟩, rfl⟩
        rw [Bool.and_eq_true] at hwanted ⊢
        exact hselected hne hway hpiece hcut hwanted.1
      · rw [List.filter_map, List.filter_filter]
        refine (filter_sublist_filter fun t hmem hwanted => ?_).map _
        obtain ⟨hne, hway⟩ := (hproper trails rfl).names t hmem
        simp only [Bool.and_eq_true, Function.comp_apply, Bool.not_eq_true', List.contains_eq_mem,
          decide_eq_false_iff_not] at hwanted ⊢
        obtain ⟨hunbroken, hselects, -⟩ := hwanted
        obtain ⟨piece, hcut⟩ := hbetween hne hway hselects
        have hpiece : '\n' ∉ piece := by
          obtain ⟨x, y, htext, -, -⟩ := hcut
          intro hbreak
          apply hunbroken
          rw [htext]
          simp [hbreak]
        exact hselected hne hway hpiece hcut hselects

end

/-- A pattern with a star describes what its compiled form says, however it is spelled. -/
theorem matchPattern_eq_of_normalGlob {d : Disk} {main other : String} {excludes : List String}
    (hmain : '|' ∉ main.toList) (hother : '|' ∉ other.toList)
    (hexcludes : ∀ e ∈ excludes, '|' ∉ e.toList) (hsame : normalGlob other = normalGlob main)
    (hstar : '*' ∈ (normalGlob main).toList) (mode : Mode) :
    d.matchPattern (withExcludes other excludes) mode =
      d.matchPattern (withExcludes main excludes) mode := by
  have hcompile : Pattern.compile (withExcludes other excludes) =
      Pattern.compile (withExcludes main excludes) := by
    unfold Pattern.compile
    rw [globAndExcludes_withExcludes hmain hexcludes, globAndExcludes_withExcludes hother hexcludes]
    simp only [hsame]
  have hcontains : (Pattern.compile (withExcludes main excludes)).glob.toList.contains '*' = true := by
    rw [compile_glob_withExcludes hmain hexcludes, List.contains_iff_mem]
    exact hstar
  unfold Disk.matchPattern
  dsimp only
  rw [hcompile, if_pos hcontains, if_pos hcontains]

namespace Act

variable {κ : Type}

/-- With two stars for a star on its own a pattern still describes every path in which no line break
stands for that star, and fails where it failed before.  Whether the second star is written beside
the star of a pattern or of its normal form makes no difference, unless the normal form has lost the
star; then the result is the same. -/
theorem match_deepened {m : Machine κ} (hnames : m.disk.tree.WellNamed) :
    (∀ (main deep : String) (front rest : List Char),
      Deepens front rest (normalGlob main) (normalGlob deep) → '|' ∉ main.toList →
        '|' ∉ deep.toList → ∀ (excludes : List String) (mode : Mode),
          (∀ e ∈ excludes, '|' ∉ e.toList) →
            (∃ failure, resultOf (matchPaths (withExcludes main excludes) mode) m = .error failure ∧
              resultOf (matchPaths (withExcludes deep excludes) mode) m = .error failure) ∨
            ∃ paths deeper, resultOf (matchPaths (withExcludes main excludes) mode) m = .ok paths ∧
              resultOf (matchPaths (withExcludes deep excludes) mode) m = .ok deeper ∧
                Reaches front rest paths deeper) ∧
    (∀ front rest : List Char, front.getLast? ≠ some '*' → rest.head? ≠ some '*' →
      let main := String.ofList (front ++ '*' :: rest)
      let deep := String.ofList (front ++ '*' :: '*' :: rest)
      (∃ a b, Deepens a b (normalGlob main) (normalGlob deep)) ∨
        ('*' ∈ (normalGlob main).toList → '|' ∉ main.toList →
          ∀ (excludes : List String) (mode : Mode), (∀ e ∈ excludes, '|' ∉ e.toList) →
            resultOf (matchPaths (withExcludes deep excludes) mode) m =
              resultOf (matchPaths (withExcludes main excludes) mode) m)) := by
  constructor
  · intro main deep front rest hdeepens hmain hdeep excludes mode hexcludes
    simp only [resultOf_matchPaths]
    rcases matchPattern_deepened (d := m.disk) hdeepens hmain hdeep hexcludes hnames mode with
      ⟨code, hone, htwo⟩ | ⟨paths, deeper, hone, htwo, hreaches⟩
    · left
      rw [hone, htwo]
      exact ⟨_, rfl, rfl⟩
    · right
      rw [hone, htwo]
      exact ⟨paths, deeper, rfl, rfl, hreaches⟩
  · intro front rest hfront hrest main deep
    rcases normalGlob_deepens hfront hrest with hsame | hdeepens
    · right
      intro hstar hmain excludes mode hexcludes
      have hdeep : '|' ∉ deep.toList := by
        simp only [main, deep, String.toList_ofList, List.mem_append, List.mem_cons] at hmain ⊢
        tauto
      rw [resultOf_matchPaths, resultOf_matchPaths,
        matchPattern_eq_of_normalGlob hmain hdeep hexcludes hsame hstar]
    · exact Or.inl hdeepens

/-- A machine with a file whose name holds a line break, beside a directory with a file. -/
def brokenMachine : Machine Unit where
  disk :=
    { tree := .dir [("a\nb", .file [] false none), ("d", .dir [("e", .file [] false none)] none)] none
      cwd := .root }
  environment := []

/-- Two stars describe the directory, which one star describes, and what is in it. -/
theorem match_deepened_brokenMachine :
    brokenMachine.disk.tree.WellNamed ∧
      resultOf (matchPaths "*" .any) brokenMachine = .ok ["a\nb", "d"] ∧
      resultOf (matchPaths "**" .any) brokenMachine = .ok ["d", "d/e"] ∧
      Reaches [] [] ["a\nb", "d"] ["d", "d/e"] := by
  have hnames : brokenMachine.disk.tree.WellNamed := by
    simp only [brokenMachine, Node.WellNamed, Node.WellNamedEntries, and_true, true_and]
    decide
  have hdeepens : Deepens [] [] (normalGlob "*") (normalGlob "**") :=
    ⟨by decide, by decide, by decide, by decide⟩
  have hone : resultOf (matchPaths "*" .any) brokenMachine = .ok ["a\nb", "d"] := by
    rw [resultOf_matchPaths]
    decide
  have htwo : resultOf (matchPaths "**" .any) brokenMachine = .ok ["d", "d/e"] := by
    rw [resultOf_matchPaths]
    decide
  refine ⟨hnames, hone, htwo, ?_⟩
  rcases (match_deepened hnames).1 "*" "**" [] [] hdeepens (by decide) (by decide) [] .any
    (by simp) with ⟨failure, hfailure, -⟩ | ⟨paths, deeper, hpaths, hdeeper, hreaches⟩
  · rw [withExcludes_nil, hone] at hfailure
    cases hfailure
  · rw [withExcludes_nil, hone, Except.ok.injEq] at hpaths
    rw [withExcludes_nil, htwo, Except.ok.injEq] at hdeeper
    rwa [hpaths, hdeeper]

/-- One star describes the file whose name holds a line break, two stars do not. -/
theorem not_deepened_over_break :
    normalGlob "*" = "*" ∧
      resultOf (matchPaths "*" .any) brokenMachine = .ok ["a\nb", "d"] ∧
      resultOf (matchPaths "**" .any) brokenMachine = .ok ["d", "d/e"] ∧ "a\nb" ∉ ["d", "d/e"] := by
  refine ⟨by decide, ?_, ?_, by decide⟩
  · rw [resultOf_matchPaths]
    decide
  · rw [resultOf_matchPaths]
    decide

end Act

end BuildRunner
