import BuildRunner.Proofs.Glob.Levels
import BuildRunner.Proofs.Glob.Normal

/-!
# A star on its own

Around a star that has no other star beside it a glob falls into two parts.  A text that the glob
describes is one of the first part, a piece without a slash, and one of the second part.  With two
stars instead of the one the parts are the same, and the piece may hold anything but a line break.
Normalising a glob keeps or drops a segment with a star whatever else is in the segment, so that
the second star may be written before it or after it.
-/

namespace BuildRunner.Glob

open Path

/-! ## Parts of a glob -/

theorem takeWhile_append_cons {α : Type} (p : α → Bool) {c : α} (hc : p c = false)
    (front rest : List α) : (front ++ c :: rest).takeWhile p = front.takeWhile p := by
  induction front with
  | nil => simp [hc]
  | cons d front ih =>
      rw [List.cons_append, List.takeWhile_cons, List.takeWhile_cons, ih]

theorem tokens_append_star {front : List Char} (hfront : front.getLast? ≠ some '*')
    (rest : List Char) : tokens (front ++ '*' :: rest) = tokens front ++ tokens ('*' :: rest) := by
  induction front using tokens.induct with
  | case1 => rfl
  | case2 front ih =>
      cases front with
      | nil => simp at hfront
      | cons c front =>
          rw [List.getLast?_cons_cons, List.getLast?_cons_cons] at hfront
          simp only [List.cons_append, tokens] at ih ⊢
          rw [ih hfront]
  | case3 c front hpair ih =>
      have hnext : ∀ t, c = '*' → front ++ '*' :: rest = '*' :: t → False := by
        intro t hc heq
        subst c
        cases front with
        | nil => simp at hfront
        | cons d front =>
            rw [List.cons_append, List.cons.injEq] at heq
            exact hpair front rfl (by rw [heq.1])
      have hlast : front.getLast? ≠ some '*' := by
        cases front with
        | nil => simp
        | cons d front => rwa [List.getLast?_cons_cons] at hfront
      rw [List.cons_append, tokens, tokens, ih hlast, List.cons_append]
      · exact hpair
      · exact hnext

theorem Token.matches_append_iff {ts us : List Token} {s : List Char} :
    Token.Matches (ts ++ us) s ↔
      ∃ x y, s = x ++ y ∧ Token.Matches ts x ∧ Token.Matches us y := by
  constructor
  · intro hmatch
    induction ts generalizing s with
    | nil => exact ⟨[], s, rfl, .nil, hmatch⟩
    | cons t ts ih =>
        rw [List.cons_append] at hmatch
        cases hmatch with
        | deep hpiece hrest =>
            obtain ⟨x, y, rfl, hx, hy⟩ := ih hrest
            exact ⟨_, y, (List.append_assoc _ _ _).symm, .deep hpiece hx, hy⟩
        | segment hpiece hrest =>
            obtain ⟨x, y, rfl, hx, hy⟩ := ih hrest
            exact ⟨_, y, (List.append_assoc _ _ _).symm, .segment hpiece hx, hy⟩
        | literal hrest =>
            obtain ⟨x, y, rfl, hx, hy⟩ := ih hrest
            exact ⟨_, y, rfl, .literal hx, hy⟩
  · rintro ⟨x, y, rfl, hx, hy⟩
    induction hx with
    | nil => exact hy
    | deep hpiece _ ih =>
        rw [List.append_assoc]
        exact .deep hpiece ih
    | segment hpiece _ ih =>
        rw [List.append_assoc]
        exact .segment hpiece ih
    | literal _ ih => exact .literal ih

/-- In a text the piece stands between texts of two globs. -/
def Between (front rest piece text : List Char) : Prop :=
  ∃ x y, text = x ++ (piece ++ y) ∧ Token.Matches (tokens front) x ∧ Token.Matches (tokens rest) y

/-- One glob is the other with two stars for one that stands on its own. -/
structure Deepens (front rest : List Char) (glob deeper : String) : Prop where
  lone_front : front.getLast? ≠ some '*'
  lone_rest : rest.head? ≠ some '*'
  single : glob.toList = front ++ '*' :: rest
  double : deeper.toList = front ++ '*' :: '*' :: rest

section

variable {front rest : List Char} {glob deeper : String} (hdeepens : Deepens front rest glob deeper)

include hdeepens

theorem Deepens.matches_single_iff (s : List Char) :
    Token.Matches (tokens glob.toList) s ↔ ∃ piece, '/' ∉ piece ∧ Between front rest piece s := by
  rw [hdeepens.single, tokens_append_star hdeepens.lone_front,
    tokens_star_of_head_ne hdeepens.lone_rest, Token.matches_append_iff]
  constructor
  · rintro ⟨x, y, rfl, hx, hy⟩
    cases hy with
    | segment hpiece hy => exact ⟨_, hpiece, x, _, rfl, hx, hy⟩
  · rintro ⟨piece, hpiece, x, y, rfl, hx, hy⟩
    exact ⟨x, piece ++ y, rfl, hx, .segment hpiece hy⟩

theorem Deepens.matches_double_iff (s : List Char) :
    Token.Matches (tokens deeper.toList) s ↔ ∃ piece, '\n' ∉ piece ∧ Between front rest piece s := by
  rw [hdeepens.double, tokens_append_star hdeepens.lone_front, tokens, Token.matches_append_iff]
  constructor
  · rintro ⟨x, y, rfl, hx, hy⟩
    cases hy with
    | deep hpiece hy => exact ⟨_, hpiece, x, _, rfl, hx, hy⟩
  · rintro ⟨piece, hpiece, x, y, rfl, hx, hy⟩
    exact ⟨x, piece ++ y, rfl, hx, .deep hpiece hy⟩

theorem Deepens.contains_star :
    glob.toList.contains '*' = true ∧ deeper.toList.contains '*' = true := by
  rw [hdeepens.single, hdeepens.double]
  simp

/-- Both globs are walked for from the same directory. -/
theorem Deepens.walkRoot_eq : walkRoot deeper = walkRoot glob := by
  have hstop : ∀ r, (front ++ '*' :: r).takeWhile (· != '*') = front.takeWhile (· != '*') :=
    fun r => takeWhile_append_cons (· != '*') (by decide) front r
  rw [walkRoot, walkRoot, hdeepens.single, hdeepens.double, hstop, hstop]

theorem Deepens.isRecursive : isRecursive deeper = true := by
  rw [isRecursive_iff, hdeepens.double]
  exact ⟨front, rest, by simp⟩

end

/-! ## Normal forms -/

/-- Two stacks of segments are the same but for one segment. -/
def Swapped (part other : List Char) (kept kept' : List (List Char)) : Prop :=
  kept = kept' ∨ ∃ above below, kept = above ++ part :: below ∧ kept' = above ++ other :: below

theorem swapped_cons (part other : List Char) (below : List (List Char)) :
    Swapped part other (part :: below) (other :: below) := Or.inr ⟨[], below, rfl, rfl⟩

section

variable {part other : List Char} (hpart : IsName part) (hother : IsName other)

include hpart hother

/-- A segment with a star is treated as a name, so that both stacks go up and down alike. -/
theorem swapped_pushSegment (rooted : Bool) {kept kept' : List (List Char)}
    (hswapped : Swapped part other kept kept') (segment : List Char) :
    Swapped part other (pushSegment rooted kept segment) (pushSegment rooted kept' segment) := by
  rcases hswapped with rfl | ⟨above, below, rfl, rfl⟩
  · exact Or.inl rfl
  · unfold pushSegment
    split
    · exact Or.inr ⟨above, below, rfl, rfl⟩
    · split
      · cases above with
        | nil =>
            simp only [List.nil_append, if_neg hpart.ne_dotdot, if_neg hother.ne_dotdot]
            exact Or.inl rfl
        | cons last above =>
            simp only [List.cons_append]
            split
            · exact Or.inr ⟨segment :: last :: above, below, rfl, rfl⟩
            · exact Or.inr ⟨above, below, rfl, rfl⟩
      · exact Or.inr ⟨segment :: above, below, rfl, rfl⟩

theorem swapped_foldl_pushSegment (rooted : Bool) (parts : List (List Char))
    {kept kept' : List (List Char)} (hswapped : Swapped part other kept kept') :
    Swapped part other (parts.foldl (pushSegment rooted) kept)
      (parts.foldl (pushSegment rooted) kept') := by
  induction parts generalizing kept kept' with
  | nil => exact hswapped
  | cons segment parts ih =>
      exact ih (swapped_pushSegment hpart hother rooted hswapped segment)

end

theorem joinSegments_around (front rest : List (List Char)) :
    ∃ before after, (∀ part, joinSegments (front ++ part :: rest) = before ++ (part ++ after)) ∧
      before.getLast? ≠ some '*' ∧ after.head? ≠ some '*' := by
  induction front with
  | nil =>
      cases rest with
      | nil => exact ⟨[], [], by simp [joinSegments], by simp, by simp⟩
      | cons next rest => exact ⟨[], '/' :: joinSegments (next :: rest), fun _ => rfl, by simp, by simp⟩
  | cons first front ih =>
      obtain ⟨before, after, hjoin, hbefore, hafter⟩ := ih
      refine ⟨first ++ '/' :: before, after, fun part => ?_, ?_, hafter⟩
      · have hcons : joinSegments (first :: (front ++ part :: rest)) =
            first ++ '/' :: joinSegments (front ++ part :: rest) := by
          cases front <;> rfl
        rw [List.cons_append, hcons, hjoin, List.append_assoc, List.cons_append]
      · rw [List.getLast?_append_of_ne_nil _ (by simp)]
        cases before with
        | nil => simp
        | cons c before => rwa [List.getLast?_cons_cons]

/-- A text without a slash stands in one segment of a path, and the other segments do not depend
on it. -/
theorem segments_around (front rest : List Char) :
    ∃ above below left right, (∀ text, '/' ∉ text →
      segments (front ++ (text ++ rest)) = above ++ (left ++ (text ++ right)) :: below) ∧
        left <:+ front ∧ right <+: rest ∧ '/' ∉ left ∧ '/' ∉ right := by
  have hright : '/' ∉ rest.takeWhile (· != '/') := by
    intro hslash
    simpa using List.mem_takeWhile_imp hslash
  have hfront := leadingPart_append_lastPart front
  have hrest := List.takeWhile_append_dropWhile (p := (· != '/')) (l := rest)
  have habove : ∃ above, ∀ s, segments (leadingPart front ++ s) = above ++ segments s := by
    cases hlead : leadingPart front with
    | nil => exact ⟨[], fun _ => rfl⟩
    | cons c lead =>
        have hne : leadingPart front ≠ [] := by simp [hlead]
        have hend := getLast?_leadingPart hne
        obtain ⟨start, hstart⟩ := List.getLast?_eq_some_iff.mp hend
        refine ⟨segments start, fun s => ?_⟩
        rw [← hlead, hstart, List.append_assoc, List.singleton_append, segments_append_slash]
  have hbelow : ∃ below, ∀ s, '/' ∉ s →
      segments (s ++ rest.dropWhile (· != '/')) = s :: below := by
    cases hdrop : rest.dropWhile (· != '/') with
    | nil => exact ⟨[], fun s hs => by rw [List.append_nil, segments_of_not_mem hs]⟩
    | cons c tail =>
        have hc : c = '/' := by
          have hhead := List.head?_dropWhile_not (· != '/') rest
          rw [hdrop] at hhead
          simpa using hhead
        subst c
        refine ⟨segments tail, fun s hs => ?_⟩
        rw [segments_append_slash, segments_of_not_mem hs, List.singleton_append]
  obtain ⟨above, habove⟩ := habove
  obtain ⟨below, hbelow⟩ := hbelow
  refine ⟨above, below, lastPart front, rest.takeWhile (· != '/'), fun text htext => ?_,
    ⟨_, hfront⟩, ⟨_, hrest⟩, slash_not_mem_lastPart front, hright⟩
  have hmiddle : '/' ∉ lastPart front ++ (text ++ rest.takeWhile (· != '/')) := by
    simp only [List.mem_append, not_or]
    exact ⟨slash_not_mem_lastPart front, htext, hright⟩
  have hsplit : front ++ (text ++ rest) = leadingPart front ++
      (lastPart front ++ (text ++ rest.takeWhile (· != '/')) ++ rest.dropWhile (· != '/')) := by
    conv_lhs => rw [← hfront, ← hrest]
    simp only [List.append_assoc]
  rw [hsplit, habove, hbelow _ hmiddle]

theorem isName_of_star {part : List Char} (hstar : '*' ∈ part) (hslash : '/' ∉ part) :
    IsName part := by
  refine ⟨⟨?_, hslash, ?_⟩, ?_⟩
  · rintro rfl
    simp at hstar
  · rintro rfl
    simp at hstar
  · rintro rfl
    simp at hstar

theorem leadingSlashes_append_star (front rest : List Char) :
    leadingSlashes (front ++ '*' :: rest) = leadingSlashes (front ++ ['*']) := by
  rw [leadingSlashes_append front (by simp), leadingSlashes_append front (by simp)]

/-- Of the normal form one segment at most depends on what is written for a star. -/
theorem swapped_normalSegments (front rest : List Char) :
    ∃ left right, left <:+ front ∧ right <+: rest ∧
      Swapped (left ++ '*' :: right) (left ++ '*' :: '*' :: right)
        (normalSegments (front ++ '*' :: rest)) (normalSegments (front ++ '*' :: '*' :: rest)) := by
  obtain ⟨above, below, left, right, hsegments, hleft, hright, hleftSlash, hrightSlash⟩ :=
    segments_around front rest
  have hname : ∀ text, '*' ∈ text → '/' ∉ text → IsName (left ++ (text ++ right)) := by
    intro text hstar hslash
    refine isName_of_star (by simp [hstar]) ?_
    simp only [List.mem_append, not_or]
    exact ⟨hleftSlash, hslash, hrightSlash⟩
  have hsingle : IsName (left ++ '*' :: right) := hname ['*'] (by simp) (by simp)
  have hdouble : IsName (left ++ '*' :: '*' :: right) := hname ['*', '*'] (by simp) (by simp)
  have hone : segments (front ++ '*' :: rest) = above ++ (left ++ '*' :: right) :: below :=
    hsegments ['*'] (by simp)
  have htwo : segments (front ++ '*' :: '*' :: rest) =
      above ++ (left ++ '*' :: '*' :: right) :: below := hsegments ['*', '*'] (by simp)
  have hslashes := leadingSlashes_append_star front ('*' :: rest)
  rw [← leadingSlashes_append_star front rest] at hslashes
  refine ⟨left, right, hleft, hright, ?_⟩
  rw [normalSegments, normalSegments, hslashes, hone, htwo, List.foldl_append, List.foldl_append,
    List.foldl_cons, List.foldl_cons, pushSegment_of_isName hsingle, pushSegment_of_isName hdouble]
  rcases swapped_foldl_pushSegment hsingle hdouble (leadingSlashes (front ++ '*' :: rest) != 0) below
    (swapped_cons _ _ _) with hsame | ⟨higher, lower, hkept, hkept'⟩
  · exact Or.inl (congrArg List.reverse hsame)
  · refine Or.inr ⟨lower.reverse, higher.reverse, ?_, ?_⟩
    · rw [hkept]
      simp
    · rw [hkept']
      simp

theorem getLast?_append_ne {c : Char} {a b : List Char} (ha : a.getLast? ≠ some c)
    (hb : b.getLast? ≠ some c) : (a ++ b).getLast? ≠ some c := by
  cases b with
  | nil => simpa using ha
  | cons d b => rwa [List.getLast?_append_of_ne_nil a (by simp)]

theorem head?_append_ne {c : Char} {a b : List Char} (ha : a.head? ≠ some c)
    (hb : b.head? ≠ some c) : (a ++ b).head? ≠ some c := by
  cases a with
  | nil => exact hb
  | cons d a => exact ha

/-- Around a star on its own a path has a normal form that does not depend on what is written for
the star, or one of two parts around what is written. -/
theorem normal_around {front rest : List Char} (hfront : front.getLast? ≠ some '*')
    (hrest : rest.head? ≠ some '*') :
    normal (front ++ '*' :: '*' :: rest) = normal (front ++ '*' :: rest) ∨
      ∃ a b, a.getLast? ≠ some '*' ∧ b.head? ≠ some '*' ∧
        normal (front ++ '*' :: rest) = a ++ '*' :: b ∧
          normal (front ++ '*' :: '*' :: rest) = a ++ '*' :: '*' :: b := by
  obtain ⟨left, right, hleft, hright, hswapped⟩ := swapped_normalSegments front rest
  have hslashes := leadingSlashes_append_star front ('*' :: rest)
  rw [← leadingSlashes_append_star front rest] at hslashes
  rcases hswapped with hsame | ⟨above, below, hone, htwo⟩
  · left
    rw [normal, normal, hslashes, hsame]
  · right
    obtain ⟨before, after, hjoin, hbefore, hafter⟩ := joinSegments_around above below
    have hlead : (List.replicate (leadingSlashes (front ++ '*' :: rest)) '/').getLast? ≠
        some '*' := by
      rw [List.getLast?_replicate]
      split <;> simp
    have hleftLast : left.getLast? ≠ some '*' := by
      obtain ⟨start, hstart⟩ := hleft
      intro hlast
      obtain ⟨init, hinit⟩ := List.getLast?_eq_some_iff.mp hlast
      apply hfront
      rw [← hstart, hinit, ← List.append_assoc, List.getLast?_concat]
    have hrightHead : right.head? ≠ some '*' := by
      obtain ⟨tail, htail⟩ := hright
      cases right with
      | nil => simp
      | cons c right =>
          rw [← htail] at hrest
          exact hrest
    refine ⟨List.replicate (leadingSlashes (front ++ '*' :: rest)) '/' ++ (before ++ left),
      right ++ after, getLast?_append_ne hlead (getLast?_append_ne hbefore hleftLast),
      head?_append_ne hrightHead hafter, ?_, ?_⟩
    · rw [normal_eq_of_ne_nil, hone, hjoin]
      · simp
      · rw [hone, hjoin]
        simp
    · rw [normal_eq_of_ne_nil, htwo, hjoin, hslashes]
      · simp
      · rw [htwo, hjoin]
        simp

/-- A second star beside one on its own stays out of the normal form of the glob together with the
first one, or stands beside it there. -/
theorem normalGlob_deepens {front rest : List Char} (hfront : front.getLast? ≠ some '*')
    (hrest : rest.head? ≠ some '*') :
    normalGlob (String.ofList (front ++ '*' :: '*' :: rest)) =
        normalGlob (String.ofList (front ++ '*' :: rest)) ∨
      ∃ a b, Deepens a b (normalGlob (String.ofList (front ++ '*' :: rest)))
        (normalGlob (String.ofList (front ++ '*' :: '*' :: rest))) := by
  have hslash : ∀ c : Char, (if c = '\\' then '/' else c) = '*' → c = '*' := by
    intro c hc
    split at hc
    · simp at hc
    · exact hc
  have hfront' : (slashed front).getLast? ≠ some '*' := by
    rw [slashed, List.getLast?_map]
    intro hlast
    obtain ⟨c, hc, hstar⟩ := Option.map_eq_some_iff.mp hlast
    exact hfront (by rw [hc, hslash c hstar])
  have hrest' : (slashed rest).head? ≠ some '*' := by
    rw [slashed, List.head?_map]
    intro hhead
    obtain ⟨c, hc, hstar⟩ := Option.map_eq_some_iff.mp hhead
    exact hrest (by rw [hc, hslash c hstar])
  have hglob : ∀ text : List Char, '*' ∈ text →
      normalGlob (String.ofList text) = String.ofList (normal (slashed text)) := by
    intro text htext
    have hne : String.ofList text ≠ "" := by
      intro hempty
      have hnil : text = [] := by simpa using congrArg String.toList hempty
      simp [hnil] at htext
    apply String.toList_injective
    rw [toList_normalGlob hne, String.toList_ofList, String.toList_ofList]
  have hstar : ∀ text : List Char, slashed ('*' :: text) = '*' :: slashed text :=
    slashed_segment (by decide)
  rw [hglob _ (by simp), hglob _ (by simp), slashed_append, slashed_append, hstar, hstar]
  rcases normal_around hfront' hrest' with hsame | ⟨a, b, ha, hb, hone, htwo⟩
  · exact Or.inl (congrArg String.ofList hsame)
  · refine Or.inr ⟨a, b, ha, hb, ?_, ?_⟩
    · rw [String.toList_ofList]
      exact hone
    · rw [String.toList_ofList]
      exact htwo

end BuildRunner.Glob
