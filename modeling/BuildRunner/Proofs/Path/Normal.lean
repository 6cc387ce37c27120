import BuildRunner.Proofs.Path.Segments

/-!
# Normal forms and spellings

A normal form consists of at most two slashes, of steps up, which only a path without slashes in
front has, and of names.  The stack that a path is read into always holds such steps and names, and
a text that is made of them is read into just these, so that the normal forms are exactly the texts
that are their own normal form.

A normal form depends only on the slashes in front and on the segments other than empty ones and
single dots.  So it does not matter how often a slash behind a segment is written, whether slashes
stand at the end, or where dots are put in.
-/

namespace BuildRunner.Path

/-! ## Segments that count -/

/-- The segments of a path that say where it leads: all but empty ones and single dots. -/
def readSegments (path : List Char) : List (List Char) :=
  (segments path).filter fun s => decide (s ≠ [] ∧ s ≠ ['.'])

theorem readSegments_append_slash (a b : List Char) :
    readSegments (a ++ '/' :: b) = readSegments a ++ readSegments b := by
  simp [readSegments, segments_append_slash]

@[simp] theorem readSegments_nil : readSegments [] = [] := by decide

@[simp] theorem readSegments_dot : readSegments ['.'] = [] := by decide

theorem readSegments_slash_cons (b : List Char) : readSegments ('/' :: b) = readSegments b :=
  readSegments_append_slash [] b

theorem readSegments_dot_slash (b : List Char) : readSegments ('.' :: '/' :: b) = readSegments b :=
  readSegments_append_slash ['.'] b

theorem readSegments_replicate_append (k : Nat) (b : List Char) :
    readSegments (List.replicate k '/' ++ b) = readSegments b := by
  induction k with
  | zero => rfl
  | succ k ih => rw [List.replicate_succ, List.cons_append, readSegments_slash_cons, ih]

theorem readSegments_joinSegments {parts : List (List Char)} (hparts : ∀ part ∈ parts, IsKept part) :
    readSegments (joinSegments parts) = parts := by
  by_cases hne : parts = []
  · subst hne
    exact readSegments_nil
  · rw [readSegments, segments_joinSegments hne fun part hpart => (hparts part hpart).slash_free]
    apply List.filter_eq_self.mpr
    intro part hpart
    simpa using ⟨(hparts part hpart).ne_nil, (hparts part hpart).ne_dot⟩

/-- What does not count is not pushed. -/
theorem foldl_pushSegment_filter (rooted : Bool) (parts kept : List (List Char)) :
    (parts.filter fun s => decide (s ≠ [] ∧ s ≠ ['.'])).foldl (pushSegment rooted) kept =
      parts.foldl (pushSegment rooted) kept := by
  induction parts generalizing kept with
  | nil => rfl
  | cons part parts ih =>
      by_cases hskip : part = [] ∨ part = ['.']
      · have hpush : pushSegment rooted kept part = kept := if_pos hskip
        have hnot : ¬(part ≠ [] ∧ part ≠ ['.']) := by tauto
        rw [List.filter_cons_of_neg (by simpa using hnot), List.foldl_cons, hpush, ih]
      · have hread : part ≠ [] ∧ part ≠ ['.'] := by tauto
        rw [List.filter_cons_of_pos (by simpa using hread), List.foldl_cons, List.foldl_cons, ih]

theorem normalSegments_eq (path : List Char) :
    normalSegments path =
      ((readSegments path).foldl (pushSegment (leadingSlashes path != 0)) []).reverse := by
  rw [readSegments, foldl_pushSegment_filter]
  rfl

/-- A normal form is read off the slashes in front and the segments that count. -/
theorem normal_congr {path other : List Char} (hslashes : leadingSlashes path = leadingSlashes other)
    (hread : readSegments path = readSegments other) : normal path = normal other := by
  rw [normal, normal, normalSegments_eq, normalSegments_eq, hslashes, hread]

/-- What does not go on with a slash leaves the slashes in front as they are. -/
theorem leadingSlashes_append (a : List Char) {b : List Char} (hb : b.head? ≠ some '/') :
    leadingSlashes (a ++ b) = leadingSlashes a := by
  have hnone : b.takeWhile (· == '/') = [] := by
    cases b with
    | nil => rfl
    | cons c b => simpa using hb
  have hsame : (a ++ b).takeWhile (· == '/') = a.takeWhile (· == '/') := by
    rw [List.takeWhile_append, hnone]
    split
    · next hall => rw [List.append_nil, (List.takeWhile_prefix _).eq_of_length hall]
    · rfl
  rw [leadingSlashes, leadingSlashes, hsame]

theorem leadingSlashes_replicate {k : Nat} (hk : k ≤ 2) :
    leadingSlashes (List.replicate k '/') = k := by
  interval_cases k
  · rfl
  · rfl
  · rfl

/-! ## The shape of normal forms -/

/-- What a normal form consists of.  Only a path without slashes in front goes up, and it does so
first. -/
structure NormalParts where
  slashes : Nat
  up : Nat
  names : List (List Char)
  slashes_le_two : slashes ≤ 2
  up_eq_zero : slashes ≠ 0 → up = 0
  isName : ∀ name ∈ names, IsName name

namespace NormalParts

variable (parts : NormalParts)

def segments : List (List Char) := List.replicate parts.up ['.', '.'] ++ parts.names

/-- The slashes and the segments, or a dot where there is neither. -/
def text : List Char :=
  let body := List.replicate parts.slashes '/' ++ joinSegments parts.segments
  if body = [] then ['.'] else body

theorem isKept_of_mem_segments {part : List Char} (hpart : part ∈ parts.segments) :
    IsKept part := by
  rcases List.mem_append.mp hpart with hup | hname
  · rw [List.eq_of_mem_replicate hup]
    exact ⟨by simp, by simp, by simp⟩
  · exact (parts.isName part hname).toIsKept

end NormalParts

/-! ## Stacks -/

theorem foldl_pushSegment_upward (k n : Nat) :
    (List.replicate n ['.', '.']).foldl (pushSegment false) (List.replicate k ['.', '.']) =
      List.replicate (k + n) ['.', '.'] := by
  induction n generalizing k with
  | zero => rfl
  | succ n ih =>
      have hstep : pushSegment false (List.replicate k ['.', '.']) ['.', '.'] =
          List.replicate (k + 1) ['.', '.'] := by
        cases k <;> simp [pushSegment, List.replicate_succ]
      rw [List.replicate_succ, List.foldl_cons, hstep, ih]
      congr 1
      omega

theorem foldl_pushSegment_names {names : List (List Char)} (hnames : ∀ name ∈ names, IsName name)
    (rooted : Bool) (kept : List (List Char)) :
    names.foldl (pushSegment rooted) kept = names.reverse ++ kept := by
  induction names generalizing kept with
  | nil => rfl
  | cons name names ih =>
      obtain ⟨hname, hothers⟩ := List.forall_mem_cons.mp hnames
      rw [List.foldl_cons, pushSegment_of_isName hname, ih hothers]
      simp

/-- A stack holds names above steps up, of which a rooted path has none. -/
def IsStack (rooted : Bool) (kept : List (List Char)) : Prop :=
  ∃ names up, kept = names ++ List.replicate up ['.', '.'] ∧ (∀ name ∈ names, IsName name) ∧
    (rooted = true → up = 0)

theorem isStack_pushSegment {rooted : Bool} {kept : List (List Char)}
    (hkept : IsStack rooted kept) {part : List Char} (hpart : '/' ∉ part) :
    IsStack rooted (pushSegment rooted kept part) := by
  obtain ⟨names, up, rfl, hnames, hup⟩ := hkept
  unfold pushSegment
  split
  · exact ⟨names, up, rfl, hnames, hup⟩
  · next hskip =>
      rw [not_or] at hskip
      split
      · next hback =>
          subst hback
          cases names with
          | cons last names =>
              obtain ⟨hlast, hnames⟩ := List.forall_mem_cons.mp hnames
              rw [List.cons_append]
              dsimp only
              rw [if_neg hlast.ne_dotdot]
              exact ⟨names, up, rfl, hnames, hup⟩
          | nil =>
              cases up with
              | zero =>
                  cases rooted with
                  | true => exact ⟨[], 0, rfl, by simp, fun _ => rfl⟩
                  | false => exact ⟨[], 1, rfl, by simp, by simp⟩
              | succ up =>
                  have hfree : rooted ≠ true := fun h => Nat.succ_ne_zero up (hup h)
                  exact ⟨[], up + 2, by simp [List.replicate_succ], by simp,
                    fun h => absurd h hfree⟩
      · next hdown =>
          have hname : IsName part := ⟨⟨hskip.1, hpart, hskip.2⟩, hdown⟩
          exact ⟨part :: names, up, rfl, List.forall_mem_cons.mpr ⟨hname, hnames⟩, hup⟩

theorem isStack_foldl_pushSegment {rooted : Bool} {parts kept : List (List Char)}
    (hkept : IsStack rooted kept) (hparts : ∀ part ∈ parts, '/' ∉ part) :
    IsStack rooted (parts.foldl (pushSegment rooted) kept) := by
  induction parts generalizing kept with
  | nil => exact hkept
  | cons part parts ih =>
      obtain ⟨hpart, hothers⟩ := List.forall_mem_cons.mp hparts
      exact ih (isStack_pushSegment hkept hpart) hothers

/-! ## Normal forms -/

/-- The normal form of a path is made of such parts. -/
theorem exists_normal_eq_text (path : List Char) : ∃ parts : NormalParts, normal path = parts.text := by
  obtain ⟨names, up, hstack, hnames, hup⟩ :=
    @isStack_foldl_pushSegment (leadingSlashes path != 0) (segments path) []
      ⟨[], 0, rfl, by simp, fun _ => rfl⟩ fun part hpart => slash_not_mem_of_mem_segments hpart
  let parts : NormalParts :=
    { slashes := leadingSlashes path
      up
      names := names.reverse
      slashes_le_two := leadingSlashes_le_two path
      up_eq_zero := fun hne => hup (by simpa using hne)
      isName := fun name hname => hnames name (List.mem_reverse.mp hname) }
  have hsegments : normalSegments path = parts.segments := by
    rw [normalSegments, hstack, List.reverse_append, List.reverse_replicate]
    rfl
  refine ⟨parts, ?_⟩
  rw [normal, NormalParts.text, hsegments]

theorem head?_joinSegments_ne {parts : List (List Char)} (hparts : ∀ part ∈ parts, IsKept part) :
    (joinSegments parts).head? ≠ some '/' := by
  intro hhead
  obtain ⟨rest, hrest⟩ := List.head?_eq_some_iff.mp hhead
  apply nil_not_mem_segments_joinSegments hparts (by simp [hrest])
  rw [hrest, segments_slash_cons]
  exact List.mem_cons_self

/-- A text that is made of such parts is its own normal form. -/
theorem normal_text (parts : NormalParts) : normal parts.text = parts.text := by
  have hkept : ∀ part ∈ parts.segments, IsKept part := fun _ hpart =>
    parts.isKept_of_mem_segments hpart
  unfold NormalParts.text
  dsimp only
  split
  · decide
  · next hbody =>
      have hslashes : leadingSlashes
          (List.replicate parts.slashes '/' ++ joinSegments parts.segments) = parts.slashes := by
        rw [leadingSlashes_append _ (head?_joinSegments_ne hkept),
          leadingSlashes_replicate parts.slashes_le_two]
      have hread : readSegments
          (List.replicate parts.slashes '/' ++ joinSegments parts.segments) = parts.segments := by
        rw [readSegments_replicate_append, readSegments_joinSegments hkept]
      have hstack : parts.segments.foldl (pushSegment (parts.slashes != 0)) [] =
          parts.names.reverse ++ List.replicate parts.up ['.', '.'] := by
        rw [NormalParts.segments, List.foldl_append, foldl_pushSegment_names parts.isName]
        congr 1
        by_cases hrooted : parts.slashes = 0
        · have hfold := foldl_pushSegment_upward 0 parts.up
          rw [List.replicate_zero, Nat.zero_add] at hfold
          rw [hrooted]
          exact hfold
        · rw [parts.up_eq_zero hrooted]
          rfl
      have hsegments : normalSegments
          (List.replicate parts.slashes '/' ++ joinSegments parts.segments) = parts.segments := by
        rw [normalSegments_eq, hslashes, hread, hstack, List.reverse_append, List.reverse_reverse,
          List.reverse_replicate]
        rfl
      rw [normal, hslashes, hsegments]
      exact if_neg hbody

/-! ## Spellings -/

section

variable {x : Char} {a b : List Char}

theorem normal_repeated_slash (hx : x ≠ '/') :
    normal (a ++ x :: '/' :: '/' :: b) = normal (a ++ x :: '/' :: b) := by
  apply normal_congr
  · rw [leadingSlashes_append a (by simpa using hx), leadingSlashes_append a (by simpa using hx)]
  · rw [List.append_cons a x ('/' :: '/' :: b), List.append_cons a x ('/' :: b),
      readSegments_append_slash, readSegments_append_slash, readSegments_slash_cons]

theorem normal_trailing_slash (hx : x ≠ '/') : normal (a ++ [x, '/']) = normal (a ++ [x]) := by
  apply normal_congr
  · rw [leadingSlashes_append a (by simpa using hx), leadingSlashes_append a (by simpa using hx)]
  · rw [List.append_cons a x, readSegments_append_slash, readSegments_nil, List.append_nil]

theorem normal_dot_before (hb : b.head? ≠ some '/') : normal ('.' :: '/' :: b) = normal b := by
  apply normal_congr
  · exact (leadingSlashes_append [] (by simp)).trans (leadingSlashes_append [] hb).symm
  · exact readSegments_dot_slash b

theorem normal_dot_behind (hb : b.head? ≠ some '/') :
    normal (a ++ '/' :: '.' :: '/' :: b) = normal (a ++ '/' :: b) := by
  apply normal_congr
  · rw [List.append_cons a '/' ('.' :: '/' :: b), List.append_cons a '/' b,
      leadingSlashes_append _ (by simp), leadingSlashes_append _ hb]
  · rw [readSegments_append_slash, readSegments_append_slash, readSegments_dot_slash]

theorem normal_dot_last : normal (a ++ ['/', '.']) = normal (a ++ ['/']) := by
  apply normal_congr
  · rw [List.append_cons a '/', leadingSlashes_append _ (by simp)]
  · rw [readSegments_append_slash, readSegments_append_slash, readSegments_dot, readSegments_nil]

end

end BuildRunner.Path

/-! ## Ways up -/

namespace BuildRunner

open Path

/-- A way up, with a slash at its end. -/
def upward : Nat → String
  | 0 => ""
  | n + 1 => "../" ++ upward n

theorem toList_upward_succ (n : Nat) :
    (upward (n + 1)).toList = '.' :: '.' :: '/' :: (upward n).toList := by
  rw [upward, String.toList_append]
  rfl

theorem toList_upward_concat (n : Nat) :
    (upward (n + 1)).toList = (upward n).toList ++ ['.', '.', '/'] := by
  induction n with
  | zero => rfl
  | succ n ih =>
      rw [toList_upward_succ (n + 1)]
      conv_lhs => rw [ih]
      rw [toList_upward_succ n]
      rfl

theorem utf8ByteSize_upward (n : Nat) : (upward n).utf8ByteSize = 3 * n := by
  induction n with
  | zero => rfl
  | succ n ih =>
      have hstep : "../".utf8ByteSize = 3 := by decide
      rw [upward, String.utf8ByteSize_append, ih, hstep]
      omega

theorem mem_upward {c : Char} {n : Nat} (hc : c ∈ (upward n).toList) : c = '.' ∨ c = '/' := by
  induction n with
  | zero => simp [upward] at hc
  | succ n ih =>
      rw [toList_upward_succ] at hc
      simp only [List.mem_cons] at hc
      rcases hc with h | h | h | h
      · exact Or.inl h
      · exact Or.inl h
      · exact Or.inr h
      · exact ih h

theorem segments_upward (n : Nat) (rest : List Char) :
    segments ((upward n).toList ++ rest) = List.replicate n ['.', '.'] ++ segments rest := by
  induction n with
  | zero => rfl
  | succ n ih =>
      have hstep :
          (upward (n + 1)).toList ++ rest = ['.', '.'] ++ '/' :: ((upward n).toList ++ rest) := by
        rw [toList_upward_succ]
        rfl
      rw [hstep, segments_append_slash, ih, List.replicate_succ]
      rfl

section

variable (n : Nat) {name : List Char} (hname : IsName name)

include hname

/-- The way up to a name is in normal form. -/
theorem exists_upward_eq_text :
    ∃ parts : NormalParts, (upward (n + 1)).toList ++ name = parts.text := by
  let parts : NormalParts :=
    { slashes := 0
      up := n + 1
      names := [name]
      slashes_le_two := Nat.zero_le 2
      up_eq_zero := fun hne => absurd rfl hne
      isName := by simpa using hname }
  have hsegments : segments ((upward (n + 1)).toList ++ name) = parts.segments := by
    rw [segments_upward, segments_of_not_mem hname.slash_free]
    rfl
  have hjoin : joinSegments parts.segments = (upward (n + 1)).toList ++ name := by
    rw [← hsegments, joinSegments_segments]
  refine ⟨parts, ?_⟩
  rw [← hjoin]
  exact (if_neg (by simp [parts, hjoin, hname.ne_nil])).symm

omit hname in
theorem getLast?_upward : (upward (n + 1)).toList.getLast? = some '/' := by
  rw [toList_upward_concat]
  simp

theorem parentChars_upward :
    parentChars ((upward (n + 1)).toList ++ name) = (upward n).toList ++ ['.', '.'] := by
  have hlead := leadingPart_append (getLast?_upward n) hname.slash_free
  have hall : ((upward (n + 1)).toList.all (· == '/')) = false := by
    rw [toList_upward_succ]
    rfl
  unfold parentChars
  dsimp only
  rw [hlead, hall, toList_upward_concat, dropSlashes]
  simp

end

theorem name_upward (n : Nat) {last : String} (hlast : IsName last.toList) :
    Path.name (upward (n + 1) ++ last) = last := by
  rw [name, String.toList_append, lastPart_append (getLast?_upward n) hlast.slash_free,
    String.ofList_toList]

end BuildRunner
