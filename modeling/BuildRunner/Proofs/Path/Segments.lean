import BuildRunner.Path
import Mathlib.Data.List.Basic
import Mathlib.Data.List.TakeWhile
import Mathlib.Tactic.IntervalCases

/-!
# Segments and normal forms of paths

A path is cut into segments at its slashes and put together from them again.  The normal form of a
path keeps a stack of segments, none of which is empty, holds a slash or is a single dot; this
invariant is carried through the fold, and everything that is said about normal forms is read off
it.  A name put behind an absolute path is one more segment of its normal form, so that a path below
a directory is seen from there as the names on the way to it.
-/

namespace BuildRunner.Path

/-! ## Cutting and joining -/

theorem joinSegments_eq_intercalate (parts : List (List Char)) :
    joinSegments parts = ['/'].intercalate parts := by
  induction parts with
  | nil => rfl
  | cons part parts ih =>
      cases parts with
      | nil => simp [joinSegments]
      | cons next parts =>
          rw [joinSegments, ih, List.intercalate_cons_cons, List.append_assoc]
          · rfl
          · simp

theorem segments_joinSegments {parts : List (List Char)} (hne : parts ≠ [])
    (hparts : ∀ part ∈ parts, '/' ∉ part) : segments (joinSegments parts) = parts := by
  rw [segments, joinSegments_eq_intercalate]
  exact List.splitOn_intercalate '/' hparts hne

theorem segments_append_slash (a b : List Char) :
    segments (a ++ '/' :: b) = segments a ++ segments b :=
  List.splitOn_append_cons_self a b

theorem segments_of_not_mem {a : List Char} (ha : '/' ∉ a) : segments a = [a] :=
  List.splitOn_eq_singleton ha

theorem segments_slash_cons (b : List Char) : segments ('/' :: b) = [] :: segments b :=
  segments_append_slash [] b

theorem segments_ne_nil (a : List Char) : segments a ≠ [] := List.splitOn_ne_nil '/' a

theorem slash_not_mem_of_mem_segments {a part : List Char} (hpart : part ∈ segments a) :
    '/' ∉ part := by
  induction a generalizing part with
  | nil =>
      rw [segments_of_not_mem (by simp), List.mem_singleton] at hpart
      simp [hpart]
  | cons c a ih =>
      by_cases hc : c = '/'
      · subst c
        rw [segments_slash_cons, List.mem_cons] at hpart
        rcases hpart with rfl | hpart
        · simp
        · exact ih hpart
      · rw [segments, List.splitOn_cons_eq_if_modifyHead, if_neg (by simpa using hc)] at hpart
        cases hrest : segments a with
        | nil => exact absurd hrest (segments_ne_nil a)
        | cons first rest =>
            have hfirst : '/' ∉ first := ih (by simp [hrest])
            rw [show a.splitOn '/' = first :: rest from hrest, List.modifyHead_cons,
              List.mem_cons] at hpart
            rcases hpart with rfl | hpart
            · simp only [List.mem_cons, not_or]
              exact ⟨fun h => hc h.symm, hfirst⟩
            · exact ih (by simp [hrest, hpart])

/-- A text holds one slash less than it has segments. -/
theorem length_segments (a : List Char) : (segments a).length = a.count '/' + 1 := by
  induction a with
  | nil => rw [segments_of_not_mem (by simp)]; rfl
  | cons c a ih =>
      by_cases hc : c = '/'
      · subst c
        rw [segments_slash_cons, List.length_cons, ih, List.count_cons_self]
      · rw [segments, List.splitOn_cons_eq_if_modifyHead, if_neg (by simpa using hc),
          List.length_modifyHead, List.count_cons_of_ne hc]
        exact ih

theorem mem_joinSegments {c : Char} {parts : List (List Char)} (hc : c ∈ joinSegments parts) :
    c = '/' ∨ ∃ part ∈ parts, c ∈ part := by
  induction parts with
  | nil => simp [joinSegments] at hc
  | cons part parts ih =>
      have hcons : c ∈ part ∨ c = '/' ∨ c ∈ joinSegments parts := by
        cases parts with
        | nil => exact Or.inl hc
        | cons next parts => simpa [joinSegments] using hc
      rcases hcons with hpart | hslash | hrest
      · exact Or.inr ⟨part, List.mem_cons_self, hpart⟩
      · exact Or.inl hslash
      · rcases ih hrest with hslash | ⟨other, hother, hmem⟩
        · exact Or.inl hslash
        · exact Or.inr ⟨other, List.mem_cons_of_mem _ hother, hmem⟩

theorem mem_joinSegments_of_mem {c : Char} {part : List Char} {parts : List (List Char)}
    (hpart : part ∈ parts) (hc : c ∈ part) : c ∈ joinSegments parts := by
  induction parts with
  | nil => simp at hpart
  | cons first parts ih =>
      have hcons : c ∈ first ∨ c ∈ joinSegments parts := by
        rcases List.mem_cons.mp hpart with rfl | hrest
        · exact Or.inl hc
        · exact Or.inr (ih hrest)
      cases parts with
      | nil => simpa [joinSegments] using hcons
      | cons next parts =>
          rw [joinSegments, List.mem_append, List.mem_cons]
          · exact hcons.imp_right Or.inr
          · simp

theorem joinSegments_segments (a : List Char) : joinSegments (segments a) = a := by
  rw [joinSegments_eq_intercalate, segments, List.intercalate_splitOn]

/-! ## The stack of a normal form -/

/-- A segment that a normal form keeps. -/
structure IsKept (part : List Char) : Prop where
  ne_nil : part ≠ []
  slash_free : '/' ∉ part
  ne_dot : part ≠ ['.']

/-- A segment that names an entry of a directory. -/
structure IsName (part : List Char) : Prop extends IsKept part where
  ne_dotdot : part ≠ ['.', '.']

theorem isName_iff (part : List Char) :
    IsName part ↔ part ≠ [] ∧ '/' ∉ part ∧ part ≠ ['.'] ∧ part ≠ ['.', '.'] := by
  constructor
  · intro hname
    exact ⟨hname.ne_nil, hname.slash_free, hname.ne_dot, hname.ne_dotdot⟩
  · rintro ⟨hnil, hslash, hdot, hdotdot⟩
    exact ⟨⟨hnil, hslash, hdot⟩, hdotdot⟩

instance : DecidablePred IsName := fun part => decidable_of_iff _ (isName_iff part).symm

/-- Kept segments leave no empty one between the slashes that join them. -/
theorem nil_not_mem_segments_joinSegments {parts : List (List Char)}
    (hparts : ∀ part ∈ parts, IsKept part) (hne : joinSegments parts ≠ []) :
    [] ∉ segments (joinSegments parts) := by
  have hcons : parts ≠ [] := by
    rintro rfl
    exact hne rfl
  rw [segments_joinSegments hcons fun part hpart => (hparts part hpart).slash_free]
  exact fun hnil => (hparts [] hnil).ne_nil rfl

theorem pushSegment_of_isName {part : List Char} (hpart : IsName part) (rooted : Bool)
    (kept : List (List Char)) : pushSegment rooted kept part = part :: kept := by
  have hskip : ¬(part = [] ∨ part = ['.']) := by
    rintro (h | h)
    · exact hpart.ne_nil h
    · exact hpart.ne_dot h
  unfold pushSegment
  rw [if_neg hskip, if_neg hpart.ne_dotdot]

theorem pushSegment_nil (rooted : Bool) (kept : List (List Char)) :
    pushSegment rooted kept [] = kept := by
  unfold pushSegment
  exact if_pos (Or.inl rfl)

theorem isKept_pushSegment {rooted : Bool} {kept : List (List Char)} {part : List Char}
    (hkept : ∀ s ∈ kept, IsKept s) (hpart : '/' ∉ part) :
    ∀ s ∈ pushSegment rooted kept part, IsKept s := by
  unfold pushSegment
  split
  · exact hkept
  · rename_i hskip
    rw [not_or] at hskip
    have hnew : IsKept part := ⟨hskip.1, hpart, hskip.2⟩
    have hcons : ∀ s ∈ part :: kept, IsKept s := by
      intro s hs
      rcases List.mem_cons.mp hs with rfl | hs
      · exact hnew
      · exact hkept s hs
    split
    · split
      · split
        · simp
        · simpa using hnew
      · split
        · exact hcons
        · exact fun s hs => hkept s (List.mem_cons_of_mem _ hs)
    · exact hcons

theorem isKept_foldl_pushSegment {rooted : Bool} {parts kept : List (List Char)}
    (hkept : ∀ s ∈ kept, IsKept s) (hparts : ∀ part ∈ parts, '/' ∉ part) :
    ∀ s ∈ parts.foldl (pushSegment rooted) kept, IsKept s := by
  induction parts generalizing kept with
  | nil => exact hkept
  | cons part parts ih =>
      rw [List.foldl_cons]
      exact ih (isKept_pushSegment hkept (hparts part (by simp)))
        (fun p hp => hparts p (List.mem_cons_of_mem part hp))

theorem isKept_of_mem_normalSegments {path part : List Char}
    (hpart : part ∈ normalSegments path) : IsKept part := by
  rw [normalSegments, List.mem_reverse] at hpart
  exact isKept_foldl_pushSegment (by simp)
    (fun _ hs => slash_not_mem_of_mem_segments hs) part hpart

theorem mem_or_eq_of_mem_pushSegment {rooted : Bool} {kept : List (List Char)}
    {part s : List Char} (hs : s ∈ pushSegment rooted kept part) : s ∈ kept ∨ s = part := by
  have hcons : s ∈ part :: kept → s ∈ kept ∨ s = part := fun h => (List.mem_cons.mp h).symm
  unfold pushSegment at hs
  split at hs
  · exact Or.inl hs
  · split at hs
    · split at hs
      · split at hs
        · simp at hs
        · exact Or.inr (List.mem_singleton.mp hs)
      · split at hs
        · exact hcons hs
        · exact Or.inl (List.mem_cons_of_mem _ hs)
    · exact hcons hs

/-- A normal form has no segment that the path does not have. -/
theorem mem_segments_of_mem_normalSegments {path part : List Char}
    (hpart : part ∈ normalSegments path) : part ∈ segments path := by
  have hfold : ∀ (rooted : Bool) (parts kept : List (List Char)),
      ∀ s ∈ parts.foldl (pushSegment rooted) kept, s ∈ kept ∨ s ∈ parts := by
    intro rooted parts
    induction parts with
    | nil => exact fun kept s hs => Or.inl hs
    | cons first parts ih =>
        intro kept s hs
        rcases ih _ s hs with hkept | hmem
        · rcases mem_or_eq_of_mem_pushSegment hkept with hold | rfl
          · exact Or.inl hold
          · exact Or.inr List.mem_cons_self
        · exact Or.inr (List.mem_cons_of_mem first hmem)
  rw [normalSegments, List.mem_reverse] at hpart
  simpa using hfold _ _ _ part hpart

theorem leadingSlashes_ne_zero_iff (path : List Char) :
    leadingSlashes path ≠ 0 ↔ path.head? = some '/' := by
  cases path with
  | nil => simp [leadingSlashes]
  | cons c path =>
      by_cases hc : c = '/'
      · subst c
        simp only [List.head?_cons, iff_true, leadingSlashes, List.takeWhile_cons, beq_self_eq_true,
          if_true, List.length_cons]
        split <;> simp_all
      · simp [leadingSlashes, hc]

theorem leadingSlashes_le_two (path : List Char) : leadingSlashes path ≤ 2 := by
  unfold leadingSlashes
  split <;> omega

/-- A normal form is its slashes and its segments, unless there is neither. -/
theorem normal_eq_of_ne_nil {path : List Char}
    (hne : List.replicate (leadingSlashes path) '/' ++ joinSegments (normalSegments path) ≠ []) :
    normal path =
      List.replicate (leadingSlashes path) '/' ++ joinSegments (normalSegments path) := by
  unfold normal
  exact if_neg hne

/-- Apart from slashes and dots a normal form has no character that the path does not have. -/
theorem mem_of_mem_normal {c : Char} {path : List Char} (hc : c ∈ normal path) (hslash : c ≠ '/')
    (hdot : c ≠ '.') : c ∈ path := by
  unfold normal at hc
  dsimp only at hc
  split at hc
  · exact absurd (List.mem_singleton.mp hc) hdot
  · rcases List.mem_append.mp hc with hlead | hbody
    · exact absurd (List.eq_of_mem_replicate hlead) hslash
    · rcases mem_joinSegments hbody with h | ⟨part, hpart, hmem⟩
      · exact absurd h hslash
      · rw [← joinSegments_segments path]
        exact mem_joinSegments_of_mem (mem_segments_of_mem_normalSegments hpart) hmem

/-- A normal form that goes on does not start with a dot for the current directory. -/
theorem normal_ne_dot_slash (path rest : List Char) : normal path ≠ '.' :: '/' :: rest := by
  intro hnormal
  have hbody : List.replicate (leadingSlashes path) '/' ++ joinSegments (normalSegments path) ≠
      [] := by
    intro hnil
    rw [normal, if_pos hnil] at hnormal
    simp at hnormal
  rw [normal_eq_of_ne_nil hbody] at hnormal
  cases hslashes : leadingSlashes path with
  | succ k =>
      rw [hslashes, List.replicate_succ] at hnormal
      simp at hnormal
  | zero =>
      rw [hslashes, List.replicate_zero, List.nil_append] at hnormal hbody
      have hkept : ∀ part ∈ normalSegments path, IsKept part :=
        fun _ hpart => isKept_of_mem_normalSegments hpart
      have hcons : normalSegments path ≠ [] := by
        intro hnil
        rw [hnil] at hbody
        exact hbody rfl
      have hparts := segments_joinSegments hcons fun part hpart => (hkept part hpart).slash_free
      have hdot : segments ('.' :: '/' :: rest) = [['.']] ++ segments rest :=
        segments_append_slash ['.'] rest
      rw [hnormal, hdot] at hparts
      exact (hkept ['.'] (by rw [← hparts]; simp)).ne_dot rfl

/-- Only the first two characters of a normal form can be two slashes in a row. -/
theorem eq_nil_of_normal_eq_append_slash_slash {path a b : List Char}
    (hnormal : normal path = a ++ '/' :: '/' :: b) : a = [] := by
  by_contra ha
  have hslash : '/' ∈ normal path := by
    rw [hnormal]
    simp
  have hbody : List.replicate (leadingSlashes path) '/' ++ joinSegments (normalSegments path) ≠
      [] := by
    intro hnil
    rw [normal, if_pos hnil] at hslash
    simp at hslash
  rw [normal_eq_of_ne_nil hbody] at hnormal
  have hkept : ∀ part ∈ normalSegments path, IsKept part :=
    fun _ hpart => isKept_of_mem_normalSegments hpart
  have htight : ∀ x y, joinSegments (normalSegments path) ≠ x ++ '/' :: '/' :: y := by
    intro x y hxy
    apply nil_not_mem_segments_joinSegments hkept (by simp [hxy])
    rw [hxy, segments_append_slash, segments_slash_cons]
    simp
  have hfirst : ∀ y, joinSegments (normalSegments path) ≠ '/' :: y := by
    intro y hy
    apply nil_not_mem_segments_joinSegments hkept (by simp [hy])
    rw [hy, segments_slash_cons]
    simp
  obtain ⟨first, a, rfl⟩ := List.exists_cons_of_ne_nil ha
  have hle := leadingSlashes_le_two path
  interval_cases hk : leadingSlashes path
  · exact htight (first :: a) b (by simpa using hnormal)
  · have htail := (List.cons.inj (by simpa [List.replicate] using hnormal)).2
    exact htight _ _ htail
  · have htail := (List.cons.inj (by simpa [List.replicate] using hnormal)).2
    cases a with
    | nil => exact hfirst _ (List.cons.inj htail).2
    | cons second a => exact htight _ _ (List.cons.inj htail).2

/-! ## The parts of a path -/

theorem leadingPart_append_lastPart (path : List Char) :
    leadingPart path ++ lastPart path = path := by
  rw [leadingPart, lastPart, ← List.reverse_append, List.takeWhile_append_dropWhile,
    List.reverse_reverse]

theorem slash_not_mem_lastPart (path : List Char) : '/' ∉ lastPart path := by
  rw [lastPart, List.mem_reverse]
  intro hmem
  have hne := List.mem_takeWhile_imp hmem
  simp at hne

theorem leadingPart_append {front part : List Char} (hfront : front.getLast? = some '/')
    (hpart : '/' ∉ part) : leadingPart (front ++ part) = front := by
  have hall : ∀ c ∈ part.reverse, (c != '/') = true := by
    intro c hc
    rw [bne_iff_ne]
    rintro rfl
    exact hpart (List.mem_reverse.mp hc)
  rw [← List.head?_reverse] at hfront
  rw [leadingPart, List.reverse_append, List.dropWhile_append_of_pos hall]
  cases hback : front.reverse with
  | nil => simp [hback] at hfront
  | cons c rest =>
      have hc : c = '/' := by simpa [hback] using hfront
      subst hc
      rw [List.dropWhile_cons_of_neg (by decide), ← hback, List.reverse_reverse]

theorem lastPart_append {front part : List Char} (hfront : front.getLast? = some '/')
    (hpart : '/' ∉ part) : lastPart (front ++ part) = part := by
  have hboth := leadingPart_append_lastPart (front ++ part)
  rw [leadingPart_append hfront hpart] at hboth
  exact List.append_cancel_left hboth

theorem getLast?_leadingPart {path : List Char} (hne : leadingPart path ≠ []) :
    (leadingPart path).getLast? = some '/' := by
  rw [leadingPart, List.getLast?_reverse]
  rw [leadingPart, ne_eq, List.reverse_eq_nil_iff] at hne
  cases hdrop : path.reverse.dropWhile (· != '/') with
  | nil => exact absurd hdrop hne
  | cons c rest =>
      have hhead := List.head?_dropWhile_not (· != '/') path.reverse
      rw [hdrop] at hhead
      simpa using hhead

theorem exists_eq_dropSlashes_append (path : List Char) :
    ∃ k, path = dropSlashes path ++ List.replicate k '/' := by
  refine ⟨(path.reverse.takeWhile (· == '/')).length, ?_⟩
  have hslashes : path.reverse.takeWhile (· == '/') =
      List.replicate (path.reverse.takeWhile (· == '/')).length '/' := by
    apply List.eq_replicate_of_mem
    intro c hc
    simpa using List.mem_takeWhile_imp hc
  have hsplit := List.takeWhile_append_dropWhile (p := (· == '/')) (l := path.reverse)
  rw [hslashes] at hsplit
  rw [dropSlashes, ← List.reverse_replicate, ← List.reverse_append, hsplit, List.reverse_reverse]

theorem mem_of_mem_parentChars {c : Char} {path : List Char} (hc : c ∈ parentChars path) :
    c ∈ path := by
  have hlead : c ∈ leadingPart path → c ∈ path := by
    intro hmem
    rw [← leadingPart_append_lastPart path]
    exact List.mem_append_left _ hmem
  unfold parentChars at hc
  dsimp only at hc
  split at hc
  · exact hlead hc
  · obtain ⟨k, hk⟩ := exists_eq_dropSlashes_append (leadingPart path)
    apply hlead
    rw [hk]
    exact List.mem_append_left _ hc

theorem getLast?_dropSlashes_ne (path : List Char) : (dropSlashes path).getLast? ≠ some '/' := by
  rw [dropSlashes, List.getLast?_reverse]
  intro hhead
  have hnot := List.head?_dropWhile_not (· == '/') path.reverse
  rw [hhead] at hnot
  simp at hnot

end BuildRunner.Path
