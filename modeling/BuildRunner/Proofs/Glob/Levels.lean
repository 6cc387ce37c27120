import BuildRunner.Proofs.Glob.Written
import BuildRunner.Proofs.Path.Relative
import Mathlib.Data.List.TakeWhile

/-!
# Roots and levels of a glob

A text that a glob without two stars in a row describes holds as many slashes as the glob, since its
stars take no slash.  The walk for such a glob starts in the directory before its first star, and
the rest of the glob says how many levels there are below.  As the glob is in normal form, its
slashes are those of the directory, one behind it, and one between two levels; so an entry that is
matched lies exactly on the last of these levels.

Both the directory and the levels are cut out of the text of the glob, and the expression is made
from the whole of it.  They belong together: a path that the expression matches is the directory, a
slash unless the directory ends in one, and a text that the rest of the glob describes.
-/

namespace BuildRunner.Glob

open Path

/-! ## Slashes of a matched text -/

theorem deep_mem_tokens_iff (glob : List Char) :
    .deep ∈ tokens glob ↔ ['*', '*'] <:+: glob := by
  induction glob using tokens.induct with
  | case1 => simp [tokens]
  | case2 r ih =>
      rw [tokens]
      constructor
      · intro _
        exact ⟨[], r, rfl⟩
      · intro _
        simp
  | case3 c r hpair ih =>
      rw [tokens, List.mem_cons, List.infix_cons_iff, ih]
      · constructor
        · rintro (hhead | htail)
          · split at hhead <;> simp at hhead
          · exact Or.inr htail
        · rintro (⟨t, ht⟩ | htail)
          · rw [List.cons_append, List.cons_append, List.nil_append, List.cons.injEq] at ht
            exact (hpair t ht.1.symm ht.2.symm).elim
          · exact Or.inr htail
      · exact hpair

theorem isRecursive_iff (glob : String) : isRecursive glob = true ↔ ['*', '*'] <:+: glob.toList := by
  rw [isRecursive, List.contains_iff_mem, deep_mem_tokens_iff]

/-- Without two stars in a row, a text that is described has the slashes of its glob. -/
theorem Token.Matches.count_slash {ts : List Token} {s : List Char} (hmatch : Token.Matches ts s)
    (hflat : .deep ∉ ts) : s.count '/' = ts.count (.literal '/') := by
  induction hmatch with
  | nil => rfl
  | deep _ _ _ => simp at hflat
  | segment hpiece _ ih =>
      have htail := ih fun hmem => hflat (List.mem_cons_of_mem _ hmem)
      rw [List.count_append, List.count_eq_zero_of_not_mem hpiece, Nat.zero_add, htail,
        List.count_cons_of_ne (by simp)]
  | @literal c _ _ _ ih =>
      have htail := ih fun hmem => hflat (List.mem_cons_of_mem _ hmem)
      by_cases hc : c = '/'
      · subst c
        rw [List.count_cons_self, List.count_cons_self, htail]
      · rw [List.count_cons_of_ne hc, List.count_cons_of_ne (by simpa using hc), htail]

theorem count_literal_slash_tokens (glob : List Char) :
    (tokens glob).count (.literal '/') = glob.count '/' := by
  induction glob using tokens.induct with
  | case1 => rfl
  | case2 r ih => simp [tokens, ih]
  | case3 c r hpair ih =>
      rw [tokens]
      · by_cases hstar : c = '*'
        · subst c
          rw [if_pos rfl, List.count_cons_of_ne (by simp), ih, List.count_cons_of_ne (by decide)]
        · rw [if_neg hstar]
          by_cases hc : c = '/'
          · subst c
            rw [List.count_cons_self, List.count_cons_self, ih]
          · rw [List.count_cons_of_ne (by simpa using hc), List.count_cons_of_ne hc, ih]
      · exact hpair

theorem count_slash_of_matches {glob s : List Char} (hflat : ¬['*', '*'] <:+: glob)
    (hmatch : Token.Matches (tokens glob) s) : s.count '/' = glob.count '/' := by
  rw [hmatch.count_slash (fun hmem => hflat ((deep_mem_tokens_iff glob).mp hmem)),
    count_literal_slash_tokens]

/-! ## The directory before the first star -/

/-- What stands behind the directory of the walk: the start of a name, and the stars. -/
def walkRest (glob : String) : List Char :=
  lastPart (glob.toList.takeWhile (· != '*')) ++ glob.toList.dropWhile (· != '*')

theorem head?_walkRest_ne (glob : String) : (walkRest glob).head? ≠ some '/' := by
  have hlast := slash_not_mem_lastPart (glob.toList.takeWhile (· != '*'))
  have hhead := List.head?_dropWhile_not (· != '*') glob.toList
  rw [walkRest]
  cases hpart : lastPart (glob.toList.takeWhile (· != '*')) with
  | nil =>
      intro hslash
      rw [List.nil_append] at hslash
      simp [hslash] at hhead
  | cons c part =>
      rw [hpart] at hlast
      intro hc
      rw [List.cons_append, List.head?_cons, Option.some.injEq] at hc
      exact hlast (by simp [hc])

theorem leadingPart_append_walkRest (glob : String) :
    leadingPart (glob.toList.takeWhile (· != '*')) ++ walkRest glob = glob.toList := by
  rw [walkRest, ← List.append_assoc, leadingPart_append_lastPart, List.takeWhile_append_dropWhile]

/-- A glob is the directory of its walk, a slash unless the directory ends in one, and the rest. -/
theorem toList_eq_walkRoot_append {glob : String}
    (htight : ∀ a b, glob.toList = a ++ '/' :: '/' :: b → a = []) (hroot : walkRoot glob ≠ ".") :
    glob.toList = (walkRoot glob).toList ++ separator (walkRoot glob).toList ++ walkRest glob := by
  have hparent : (walkRoot glob).toList = parentChars (glob.toList.takeWhile (· != '*')) ∧
      parentChars (glob.toList.takeWhile (· != '*')) ≠ [] := by
    unfold walkRoot at hroot ⊢
    split at hroot
    · exact absurd rfl hroot
    · next hne => simpa using hne
  obtain ⟨hchars, hne⟩ := hparent
  have hglob := (leadingPart_append_walkRest glob).symm
  rw [hchars]
  unfold parentChars at hne ⊢
  dsimp only at hne ⊢
  split
  · next hall =>
      rw [if_pos hall] at hne
      have hsep : separator (leadingPart (glob.toList.takeWhile (· != '*'))) = [] :=
        if_pos (Or.inr (getLast?_leadingPart hne))
      rw [hsep, List.append_nil]
      exact hglob
  · next hall =>
      rw [if_neg hall] at hne
      obtain ⟨k, hk⟩ := exists_eq_dropSlashes_append
        (leadingPart (glob.toList.takeWhile (· != '*')))
      have hsep : separator (dropSlashes (leadingPart (glob.toList.takeWhile (· != '*')))) = ['/'] :=
        if_neg (by
          rw [not_or]
          exact ⟨hne, getLast?_dropSlashes_ne _⟩)
      rw [hsep]
      match k, hk with
      | 0, hk =>
          have hlead : leadingPart (glob.toList.takeWhile (· != '*')) ≠ [] := by
            intro hnil
            rw [hnil] at hall
            simp at hall
          have hlast := getLast?_leadingPart hlead
          rw [List.replicate_zero, List.append_nil] at hk
          rw [hk] at hlast
          exact absurd hlast (getLast?_dropSlashes_ne _)
      | 1, hk =>
          rw [← show List.replicate 1 '/' = ['/'] from rfl, ← hk]
          exact hglob
      | k + 2, hk =>
          exfalso
          apply hne
          apply htight (dropSlashes (leadingPart (glob.toList.takeWhile (· != '*'))))
            (List.replicate k '/' ++ walkRest glob)
          refine hglob.trans ((congrArg (· ++ _) hk).trans ?_)
          simp [List.replicate_succ]

/-! ## Fronts without stars -/

/-- What stands before the first star is matched as it is written. -/
theorem matches_tokens_append_iff {front : List Char} (hfront : '*' ∉ front) {back s : List Char} :
    Token.Matches (tokens (front ++ back)) s ↔
      ∃ rest, s = front ++ rest ∧ Token.Matches (tokens back) rest := by
  induction front generalizing s with
  | nil => simp
  | cons c front ih =>
      rw [List.mem_cons, not_or] at hfront
      rw [List.cons_append, tokens_cons_of_ne (Ne.symm hfront.1)]
      constructor
      · intro hmatch
        cases hmatch with
        | literal hmatch =>
            obtain ⟨rest, rfl, hrest⟩ := (ih hfront.2).mp hmatch
            exact ⟨rest, rfl, hrest⟩
      · rintro ⟨rest, rfl, hrest⟩
        exact .literal ((ih hfront.2).mpr ⟨rest, rfl, hrest⟩)

theorem matches_tokens_iff_of_starless {glob s : List Char} (hglob : '*' ∉ glob) :
    Token.Matches (tokens glob) s ↔ s = glob := by
  have happend := @matches_tokens_append_iff glob hglob [] s
  rw [List.append_nil] at happend
  rw [happend]
  constructor
  · rintro ⟨rest, rfl, hrest⟩
    cases hrest
    exact List.append_nil glob
  · rintro rfl
    exact ⟨[], (List.append_nil s).symm, .nil⟩

/-! ## The directory of the walk -/

theorem walkRoot_ne_empty (glob : String) : walkRoot glob ≠ "" := by
  unfold walkRoot
  split
  · decide
  · next hne =>
      rw [ne_eq, ← String.toList_eq_nil_iff, String.toList_ofList]
      exact hne

theorem star_not_mem_walkRoot (glob : String) : '*' ∉ (walkRoot glob).toList := by
  unfold walkRoot
  split
  · decide
  · rw [String.toList_ofList]
    intro hstar
    have hbefore := List.mem_takeWhile_imp (mem_of_mem_parentChars hstar)
    simp at hbefore

theorem star_not_mem_separator (directory : List Char) : '*' ∉ separator directory := by
  unfold separator
  split
  · simp
  · simp

theorem normalGlob_tight {main : String} {a b : List Char}
    (hglob : (normalGlob main).toList = a ++ '/' :: '/' :: b) : a = [] := by
  unfold normalGlob at hglob
  split at hglob
  · next hempty =>
      rw [String.isEmpty_iff] at hempty
      subst main
      simp at hglob
  · rw [String.toList_ofList] at hglob
    exact eq_nil_of_normal_eq_append_slash_slash hglob

/-! ## What lies below it -/

/-- The part of a glob that describes what lies below the directory of its walk. -/
def walkBelow (glob : String) : List Char :=
  if walkRoot glob = "." then glob.toList else walkRest glob

theorem walkBelow_suffix (glob : String) : walkBelow glob <:+ glob.toList := by
  unfold walkBelow
  split
  · exact List.suffix_rfl
  · exact ⟨_, leadingPart_append_walkRest glob⟩

theorem dropWhile_separator_append {directory rest : List Char} (hrest : rest.head? ≠ some '/') :
    (separator directory ++ rest).dropWhile (· == '/') = rest := by
  have hstop : rest.dropWhile (· == '/') = rest := by
    cases rest with
    | nil => rfl
    | cons c rest =>
        have hc : (c == '/') = false := by simpa using hrest
        rw [List.dropWhile_cons, hc]
        rfl
  unfold separator
  split
  · exact hstop
  · simpa using hstop

theorem one_le_walkLevels (glob root : String) : 1 ≤ walkLevels glob root := by
  unfold walkLevels
  exact Nat.le_add_left 1 _

section

variable {glob : String} (htight : ∀ a b, glob.toList = a ++ '/' :: '/' :: b → a = [])

include htight

/-- The levels are counted in the part of the glob below the directory of the walk. -/
theorem walkLevels_walkRoot : walkLevels glob (walkRoot glob) = (walkBelow glob).count '/' + 1 := by
  unfold walkLevels walkBelow
  by_cases hroot : walkRoot glob = "."
  · rw [if_pos hroot, if_pos hroot]
  · have hcut : (glob.toList.drop (walkRoot glob).length).dropWhile (· == '/') = walkRest glob := by
      rw [toList_eq_walkRoot_append htight hroot, List.append_assoc, ← String.length_toList,
        List.drop_left, dropWhile_separator_append (head?_walkRest_ne glob)]
    rw [if_neg hroot, if_neg hroot, hcut]

/-- Apart from the current directory, that of the walk is written at the front of the glob. -/
theorem matches_tokens_iff_below (hroot : walkRoot glob ≠ ".") (s : List Char) :
    Token.Matches (tokens glob.toList) s ↔
      ∃ below, s = (walkRoot glob).toList ++ separator (walkRoot glob).toList ++ below ∧
        Token.Matches (tokens (walkRest glob)) below := by
  have hfront : '*' ∉ (walkRoot glob).toList ++ separator (walkRoot glob).toList := by
    rw [List.mem_append, not_or]
    exact ⟨star_not_mem_walkRoot glob, star_not_mem_separator _⟩
  conv_lhs => rw [toList_eq_walkRoot_append htight hroot]
  exact matches_tokens_append_iff hfront

end

/-! ## Compiled patterns -/

theorem Pattern.compile_tight {pattern : String} {a b : List Char}
    (hglob : (Pattern.compile pattern).glob.toList = a ++ '/' :: '/' :: b) : a = [] := by
  rw [Pattern.compile_glob] at hglob
  exact normalGlob_tight hglob

/-- A path that is matched is the root directory and a text that the glob describes below it. -/
theorem Pattern.fullMatch_compile_iff_below (pattern : String) (path : List Char) :
    (Pattern.compile pattern).regex.fullMatch path = true ↔
      ∃ below, path = (Pattern.compile pattern).root.toList ++
          separator (Pattern.compile pattern).root.toList ++ below ∧
        Token.Matches (tokens (walkBelow (Pattern.compile pattern).glob)) below := by
  have hroot := Pattern.compile_root pattern
  rw [Pattern.fullMatch_compile_iff, Pattern.Describes, walkBelow, ← hroot]
  by_cases hdot : (Pattern.compile pattern).root = "."
  · have hanchor : (".".toList ++ separator ".".toList : List Char) = ['.', '/'] := by decide
    rw [if_pos hdot, if_pos hdot, hdot, hanchor]
    rfl
  · rw [if_neg hdot, if_neg hdot, hroot]
    exact matches_tokens_iff_below (fun _ _ => Pattern.compile_tight) (hroot ▸ hdot) path

/-- Without two stars in a row, a text below the directory has one slash less than there are
levels. -/
theorem Pattern.walkLevels_compile {pattern : String} {below : List Char}
    (hflat : ¬['*', '*'] <:+: (Pattern.compile pattern).glob.toList)
    (hbelow : Token.Matches (tokens (walkBelow (Pattern.compile pattern).glob)) below) :
    walkLevels (Pattern.compile pattern).glob (Pattern.compile pattern).root =
      below.count '/' + 1 := by
  have hflatBelow : ¬['*', '*'] <:+: walkBelow (Pattern.compile pattern).glob := fun hmem =>
    hflat (hmem.trans (walkBelow_suffix _).isInfix)
  rw [Pattern.compile_root, walkLevels_walkRoot fun _ _ => Pattern.compile_tight,
    count_slash_of_matches hflatBelow hbelow]

theorem Pattern.recursive_compile_iff (pattern : String) :
    (Pattern.compile pattern).recursive = true ↔
      ['*', '*'] <:+: (Pattern.compile pattern).glob.toList := by
  rw [Pattern.compile_recursive, isRecursive_iff]

/-- The flag and the levels of a pattern without two stars in a row. -/
theorem recursive_and_levels_of_flat {pattern : String}
    (hflat : ¬['*', '*'] <:+: (Pattern.compile pattern).glob.toList) :
    (Pattern.compile pattern).recursive = false ∧
      (Pattern.compile pattern).levels =
        some (walkLevels (Pattern.compile pattern).glob (Pattern.compile pattern).root) := by
  have hrecursive : (Pattern.compile pattern).recursive = false := by
    rwa [Bool.eq_false_iff, ne_eq, Pattern.recursive_compile_iff]
  refine ⟨hrecursive, ?_⟩
  rw [Pattern.compile_levels, hrecursive]
  rfl

/-- The root directory and the levels of a compiled pattern bound what its expression matches: the
directory holds no star, every path that is matched starts with it and a slash, only one where it
ends in a slash itself, and unless the pattern is recursive there is one slash less behind it than
there are levels. -/
theorem Pattern.root_and_levels_bound (pattern : String) :
    let compiled := Pattern.compile pattern
    compiled.root ≠ "" ∧ '*' ∉ compiled.root.toList ∧
      ∀ path, compiled.regex.fullMatch path = true →
        ∃ below, path = compiled.root.toList ++ separator compiled.root.toList ++ below ∧
          compiled.levels = if compiled.recursive then none else some (below.count '/' + 1) := by
  intro compiled
  have hroot : compiled.root = walkRoot compiled.glob := Pattern.compile_root pattern
  refine ⟨hroot ▸ walkRoot_ne_empty _, hroot ▸ star_not_mem_walkRoot _, fun path hmatch => ?_⟩
  obtain ⟨below, hpath, hbelow⟩ := (Pattern.fullMatch_compile_iff_below pattern path).mp hmatch
  have hlevels : compiled.levels =
      if compiled.recursive then none else some (walkLevels compiled.glob compiled.root) :=
    Pattern.compile_levels pattern
  refine ⟨below, hpath, ?_⟩
  by_cases hrecursive : compiled.recursive = true
  · rw [hlevels, if_pos hrecursive, if_pos hrecursive]
  · have hflat := (Pattern.recursive_compile_iff pattern).not.mp hrecursive
    rw [hlevels, if_neg hrecursive, if_neg hrecursive]
    exact congrArg some (Pattern.walkLevels_compile hflat hbelow)

/-- The sources one level below a directory with two slashes before it. -/
theorem Pattern.root_and_levels_bound_sources :
    (Pattern.compile "//src/*/a*.c").regex.fullMatch "//src/lib/ab.c".toList = true ∧
      (Pattern.compile "//src/*/a*.c").root = "//src" ∧
      (Pattern.compile "//src/*/a*.c").levels = some ("lib/ab.c".toList.count '/' + 1) := by
  have hmatch : (Pattern.compile "//src/*/a*.c").regex.fullMatch "//src/lib/ab.c".toList = true := by
    decide
  have hroot : (Pattern.compile "//src/*/a*.c").root = "//src" := by decide
  have hrecursive : (Pattern.compile "//src/*/a*.c").recursive = false := by decide
  obtain ⟨-, -, hbound⟩ := Pattern.root_and_levels_bound "//src/*/a*.c"
  obtain ⟨below, hpath, hlevels⟩ := hbound _ hmatch
  rw [hroot] at hpath
  have hbelow : below = "lib/ab.c".toList :=
    (List.append_cancel_left (hpath.symm.trans (by decide) : _ ++ below = _ ++ _))
  rw [hrecursive, hbelow] at hlevels
  exact ⟨hmatch, hroot, hlevels⟩

end BuildRunner.Glob
