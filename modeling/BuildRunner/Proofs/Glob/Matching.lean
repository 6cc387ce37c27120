import BuildRunner.Glob.Regex
import Mathlib.Data.List.Basic

/-!
# Matching decides the language of a glob

`Regex.fullMatch` looks for a way to cut a text by trying all of them: a starred class takes no
character first and one more each time the rest does not fit.  `Token.Matches` says declaratively
which cuts there are.  The two agree on every list of tokens, and an expression may start with a
literal text, which is then taken off the text that is matched.
-/

namespace BuildRunner.Glob

theorem CharClass.accepts_allBut_iff {c : Char} {piece : List Char} :
    (∀ x ∈ piece, (CharClass.allBut c).accepts x = true) ↔ c ∉ piece := by
  simp only [CharClass.accepts, bne_iff_ne]
  constructor
  · intro h hc
    exact h c hc rfl
  · rintro h x hx rfl
    exact h hx

namespace Regex

/-- A starred class finds every way to take off a piece of its characters. -/
theorem matchStar_eq_true_iff (chars : CharClass) (rest : List Char → Bool) (s : List Char) :
    matchStar chars rest s = true ↔
      ∃ piece tail, s = piece ++ tail ∧ (∀ c ∈ piece, chars.accepts c = true) ∧
        rest tail = true := by
  induction s with
  | nil =>
      simp only [matchStar]
      constructor
      · intro hrest
        exact ⟨[], [], rfl, by simp, hrest⟩
      · rintro ⟨piece, tail, hs, -, hrest⟩
        obtain ⟨rfl, rfl⟩ := List.append_eq_nil_iff.mp hs.symm
        exact hrest
  | cons c s ih =>
      simp only [matchStar, Bool.or_eq_true, Bool.and_eq_true, ih]
      constructor
      · rintro (hrest | ⟨hc, piece, tail, hs, hpiece, hrest⟩)
        · exact ⟨[], c :: s, rfl, by simp, hrest⟩
        · refine ⟨c :: piece, tail, by rw [hs, List.cons_append], ?_, hrest⟩
          intro x hx
          rcases List.mem_cons.mp hx with rfl | hx
          · exact hc
          · exact hpiece x hx
      · rintro ⟨piece, tail, hs, hpiece, hrest⟩
        cases piece with
        | nil =>
            left
            rwa [hs]
        | cons x piece =>
            rw [List.cons_append, List.cons.injEq] at hs
            obtain ⟨rfl, rfl⟩ := hs
            right
            exact ⟨hpiece c (by simp), piece, tail, rfl,
              fun y hy => hpiece y (List.mem_cons_of_mem c hy), hrest⟩

theorem fullMatch_starred (chars : CharClass) (regex : Regex) (s : List Char) :
    fullMatch (⟨chars, true⟩ :: regex) s = matchStar chars (fullMatch regex) s := by
  simp [fullMatch]

theorem fullMatch_single_cons (chars : CharClass) (regex : Regex) (c : Char) (s : List Char) :
    fullMatch (⟨chars, false⟩ :: regex) (c :: s) = (chars.accepts c && fullMatch regex s) := by
  simp [fullMatch]

theorem fullMatch_single_nil (chars : CharClass) (regex : Regex) :
    fullMatch (⟨chars, false⟩ :: regex) [] = false := by
  simp [fullMatch]

/-- The matcher accepts exactly the texts that a list of tokens describes. -/
theorem fullMatch_map_ofToken_iff (ts : List Token) (s : List Char) :
    fullMatch (ts.map ofToken) s = true ↔ Token.Matches ts s := by
  induction ts generalizing s with
  | nil =>
      simp only [List.map_nil, fullMatch, List.isEmpty_iff]
      constructor
      · rintro rfl
        exact .nil
      · intro h
        cases h
        rfl
  | cons t ts ih =>
      rw [List.map_cons]
      cases t with
      | deep =>
          rw [ofToken, fullMatch_starred, matchStar_eq_true_iff]
          constructor
          · rintro ⟨piece, tail, rfl, hpiece, htail⟩
            exact .deep (CharClass.accepts_allBut_iff.mp hpiece) ((ih tail).mp htail)
          · intro h
            cases h with
            | deep hpiece htail =>
                exact ⟨_, _, rfl, CharClass.accepts_allBut_iff.mpr hpiece, (ih _).mpr htail⟩
      | segment =>
          rw [ofToken, fullMatch_starred, matchStar_eq_true_iff]
          constructor
          · rintro ⟨piece, tail, rfl, hpiece, htail⟩
            exact .segment (CharClass.accepts_allBut_iff.mp hpiece) ((ih tail).mp htail)
          · intro h
            cases h with
            | segment hpiece htail =>
                exact ⟨_, _, rfl, CharClass.accepts_allBut_iff.mpr hpiece, (ih _).mpr htail⟩
      | literal c =>
          rw [ofToken]
          cases s with
          | nil =>
              rw [fullMatch_single_nil]
              constructor
              · simp
              · intro h
                cases h
          | cons x s =>
              rw [fullMatch_single_cons, Bool.and_eq_true, ih]
              simp only [CharClass.accepts, beq_iff_eq]
              constructor
              · rintro ⟨rfl, hs⟩
                exact .literal hs
              · intro h
                cases h with
                | literal hs => exact ⟨rfl, hs⟩

theorem fullMatch_ofGlob_iff (glob s : List Char) :
    fullMatch (ofGlob glob) s = true ↔ Token.Matches (tokens glob) s :=
  fullMatch_map_ofToken_iff (tokens glob) s

/-- An expression behind a literal text matches what the text is put before. -/
theorem fullMatch_ofText_append_iff (text : List Char) (regex : Regex) (s : List Char) :
    fullMatch (ofText text ++ regex) s = true ↔
      ∃ rest, s = text ++ rest ∧ fullMatch regex rest = true := by
  induction text generalizing s with
  | nil => simp [ofText]
  | cons c text ih =>
      have hsplit : ofText (c :: text) ++ regex =
          ⟨.exactly c, false⟩ :: (ofText text ++ regex) := rfl
      rw [hsplit]
      cases s with
      | nil => simp [fullMatch_single_nil]
      | cons x s =>
          rw [fullMatch_single_cons, Bool.and_eq_true, ih]
          simp only [CharClass.accepts, beq_iff_eq, List.cons_append, List.cons.injEq]
          constructor
          · rintro ⟨rfl, rest, rfl, hrest⟩
            exact ⟨rest, ⟨rfl, rfl⟩, hrest⟩
          · rintro ⟨rest, ⟨rfl, rfl⟩, hrest⟩
            exact ⟨rfl, rest, rfl, hrest⟩

end Regex

end BuildRunner.Glob
