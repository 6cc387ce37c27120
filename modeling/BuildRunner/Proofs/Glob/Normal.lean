import BuildRunner.Glob.Pattern
import BuildRunner.Proofs.Path.Normal
import Mathlib.Logic.Relation

/-!
# Normal forms of globs

A glob is normalised with either slash as separator.  Its normal form is a text of slashes, steps up
and names without any backslash, and exactly such texts are left as they are.  Spelling a glob in
another way, with other separators, more of them, some at the end, or dots as segments, changes
nothing about its normal form.
-/

namespace BuildRunner.Glob

open Path

/-- A glob with slashes for backslashes. -/
def slashed (glob : List Char) : List Char := glob.map fun c => if c = '\\' then '/' else c

theorem slashed_append (a b : List Char) : slashed (a ++ b) = slashed a ++ slashed b :=
  List.map_append

theorem slashed_of_backslash_free {glob : List Char} (hglob : '\\' ∉ glob) :
    slashed glob = glob := by
  have hsame : ∀ c ∈ glob, (if c = '\\' then '/' else c) = id c := by
    intro c hc
    rw [if_neg]
    · rfl
    · rintro rfl
      exact hglob hc
  rw [slashed, List.map_congr_left hsame, List.map_id]

theorem backslash_not_mem_slashed (glob : List Char) : '\\' ∉ slashed glob := by
  unfold slashed
  intro hmem
  obtain ⟨c, -, hc⟩ := List.mem_map.mp hmem
  split at hc
  · exact absurd hc (by decide)
  · next hne => exact hne hc

theorem toList_normalGlob {glob : String} (hglob : glob ≠ "") :
    (normalGlob glob).toList = normal (slashed glob.toList) := by
  have hempty : ¬glob.isEmpty = true := by simpa [String.isEmpty_iff] using hglob
  rw [normalGlob, if_neg hempty, String.toList_ofList]
  rfl

/-- A text that is a normal form of globs. -/
structure IsNormalForm (text : List Char) : Prop where
  backslash_free : '\\' ∉ text
  parts : ∃ parts : NormalParts, text = parts.text

theorem isNormalForm_normalGlob {glob : String} (hglob : glob ≠ "") :
    IsNormalForm (normalGlob glob).toList := by
  rw [toList_normalGlob hglob]
  refine ⟨fun hmem => ?_, exists_normal_eq_text _⟩
  exact backslash_not_mem_slashed glob.toList (mem_of_mem_normal hmem (by decide) (by decide))

/-- Normal forms are left as they are. -/
theorem IsNormalForm.normalGlob_eq {glob : String} (hnormal : IsNormalForm glob.toList) :
    normalGlob glob = glob := by
  by_cases hglob : glob = ""
  · subst hglob
    rfl
  · obtain ⟨parts, hparts⟩ := hnormal.parts
    apply String.toList_injective
    rw [toList_normalGlob hglob, slashed_of_backslash_free hnormal.backslash_free, hparts,
      normal_text]

/-! ## Spellings -/

/-- The characters that separate segments. -/
def IsSeparator (c : Char) : Prop := c = '/' ∨ c = '\\'

instance : DecidablePred IsSeparator := fun c => inferInstanceAs (Decidable (c = '/' ∨ c = '\\'))

/-- One glob is spelled like the other, but for one place. -/
inductive Respelled : List Char → List Char → Prop
  /-- One separator stands for the other. -/
  | separator {front back : List Char} {c d : Char} :
      IsSeparator c → IsSeparator d → Respelled (front ++ c :: back) (front ++ d :: back)
  /-- A separator behind a segment is repeated. -/
  | repeated {front back : List Char} {x c d : Char} :
      ¬IsSeparator x → IsSeparator c → IsSeparator d →
        Respelled (front ++ x :: c :: back) (front ++ x :: c :: d :: back)
  /-- A separator stands behind the last segment. -/
  | trailing {front : List Char} {x c : Char} :
      ¬IsSeparator x → IsSeparator c → Respelled (front ++ [x]) (front ++ [x, c])
  /-- A dot is put before the first segment of a relative path. -/
  | dotBefore {back : List Char} {x c : Char} :
      ¬IsSeparator x → IsSeparator c → Respelled (x :: back) ('.' :: c :: x :: back)
  /-- A dot is put behind a separator, before the next segment or the end. -/
  | dotBehind {front back : List Char} {c d : Char} :
      IsSeparator c → IsSeparator d → (∀ x ∈ back.head?, ¬IsSeparator x) →
        Respelled (front ++ c :: back) (front ++ c :: '.' :: d :: back)
  /-- A dot is put at the end, behind a separator. -/
  | dotLast {front : List Char} {c : Char} :
      IsSeparator c → Respelled (front ++ [c]) (front ++ [c, '.'])

theorem slashed_separator {c : Char} (hc : IsSeparator c) (back : List Char) :
    slashed (c :: back) = '/' :: slashed back := by
  rcases hc with rfl | rfl
  · rfl
  · rfl

theorem slashed_segment {x : Char} (hx : ¬IsSeparator x) (back : List Char) :
    slashed (x :: back) = x :: slashed back := by
  have hne : x ≠ '\\' := fun h => hx (Or.inr h)
  rw [slashed, List.map_cons, if_neg hne]
  rfl

theorem head?_slashed_ne {back : List Char} (hback : ∀ x ∈ back.head?, ¬IsSeparator x) :
    (slashed back).head? ≠ some '/' := by
  cases back with
  | nil => simp [slashed]
  | cons x back =>
      have hx : ¬IsSeparator x := hback x rfl
      rw [slashed_segment hx, List.head?_cons]
      intro hslash
      exact hx (Or.inl (Option.some.inj hslash))

theorem Respelled.normal_eq {glob other : List Char} (hspelled : Respelled glob other) :
    normal (slashed glob) = normal (slashed other) := by
  have hne : ∀ {x : Char}, ¬IsSeparator x → x ≠ '/' := fun hx hslash => hx (Or.inl hslash)
  have hdot : ∀ back : List Char, slashed ('.' :: back) = '.' :: slashed back :=
    slashed_segment (by decide)
  have hnil : slashed [] = [] := rfl
  cases hspelled with
  | separator hc hd =>
      rw [slashed_append, slashed_append, slashed_separator hc, slashed_separator hd]
  | repeated hx hc hd =>
      rw [slashed_append, slashed_append, slashed_segment hx, slashed_segment hx,
        slashed_separator hc, slashed_separator hc, slashed_separator hd,
        normal_repeated_slash (hne hx)]
  | trailing hx hc =>
      rw [slashed_append, slashed_append, slashed_segment hx, slashed_segment hx,
        slashed_separator hc, hnil, normal_trailing_slash (hne hx)]
  | dotBefore hx hc =>
      rw [hdot, slashed_separator hc, slashed_segment hx, normal_dot_before (by simpa using hne hx)]
  | dotBehind hc hd hback =>
      rw [slashed_append, slashed_append, slashed_separator hc, slashed_separator hc, hdot,
        slashed_separator hd, normal_dot_behind (head?_slashed_ne hback)]
  | dotLast hc =>
      rw [slashed_append, slashed_append, slashed_separator hc, slashed_separator hc, hdot, hnil,
        normal_dot_last]

theorem Respelled.ne_nil {glob other : List Char} (hspelled : Respelled glob other) :
    glob ≠ [] ∧ other ≠ [] := by
  cases hspelled <;> simp

/-- A glob has the same normal form in all its spellings. -/
theorem normalGlob_eq_of_respelled {glob other : List Char}
    (hspelled : Relation.EqvGen Respelled glob other) :
    normalGlob (String.ofList glob) = normalGlob (String.ofList other) := by
  induction hspelled with
  | rel glob other hstep =>
      have hne : ∀ {text : List Char}, text ≠ [] → String.ofList text ≠ "" := by
        intro text htext hempty
        exact htext (by simpa using congrArg String.toList hempty)
      obtain ⟨hglob, hother⟩ := hstep.ne_nil
      apply String.toList_injective
      rw [toList_normalGlob (hne hglob), toList_normalGlob (hne hother), String.toList_ofList,
        String.toList_ofList, hstep.normal_eq]
  | refl glob => rfl
  | symm glob other _ ih => exact ih.symm
  | trans glob middle other _ _ ih ih' => exact ih.trans ih'

/-- Normalising a glob yields a normal form, which is left as it is when it is normalised again like
every other normal form, and nothing else; and all spellings of a glob have one normal form. -/
theorem normalGlob_is_canonical :
    (∀ glob : String, glob ≠ "" →
      IsNormalForm (normalGlob glob).toList ∧ normalGlob (normalGlob glob) = normalGlob glob ∧
        (normalGlob glob = glob ↔ IsNormalForm glob.toList)) ∧
    ∀ glob other : String, Relation.EqvGen Respelled glob.toList other.toList →
      normalGlob glob = normalGlob other := by
  constructor
  · intro glob hglob
    have hnormal := isNormalForm_normalGlob hglob
    refine ⟨hnormal, hnormal.normalGlob_eq, fun hfixed => ?_, fun hform => hform.normalGlob_eq⟩
    rwa [hfixed] at hnormal
  · intro glob other hspelled
    have hsame := normalGlob_eq_of_respelled hspelled
    rwa [String.ofList_toList, String.ofList_toList] at hsame

/-- A directory spelled in two ways. -/
theorem normalGlob_is_canonical_lib :
    IsNormalForm (normalGlob ".\\src//lib").toList ∧
      normalGlob ".\\src//lib" = normalGlob "src/lib/" ∧ normalGlob "src/lib/" = "src/lib" := by
  obtain ⟨hform, hsame⟩ := normalGlob_is_canonical
  have hdot : Respelled "src/lib".toList ".\\src/lib".toList :=
    .dotBefore (by decide) (by decide)
  have htwice : Respelled ".\\src/lib".toList ".\\src//lib".toList :=
    @Respelled.repeated ".\\sr".toList "lib".toList 'c' '/' '/' (by decide) (by decide) (by decide)
  have hlast : Respelled "src/lib".toList "src/lib/".toList :=
    @Respelled.trailing "src/li".toList 'b' '/' (by decide) (by decide)
  refine ⟨(hform _ (by decide)).1, hsame _ _ ?_, by decide⟩
  exact ((Relation.EqvGen.rel _ _ hdot).trans _ _ _ (.rel _ _ htwice)).symm.trans _ _ _
    (.rel _ _ hlast)

end BuildRunner.Glob
