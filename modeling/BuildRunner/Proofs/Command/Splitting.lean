import BuildRunner.Command.Split
import Mathlib.Data.List.Induction

/-!
# What splitting gives back

Words that are quoted and joined are split into the same words again, whatever characters they
hold.  A command line is refused exactly if it has no words or stops too early: within quotes, or
behind a backslash.  Where a line may stop is told by a grammar of pieces, each of which is complete
in itself; the reading of a line is at the place of the grammar that its states are named for.
-/

namespace BuildRunner.Command

/-! ## Quoted words -/

theorem splitFrom_separator {c : Char} (hc : isSeparator c = true) (word : Option (List Char))
    (rest : List Char) :
    splitFrom .plain word (c :: rest) = (splitFrom .plain none rest).map (finished word ++ ·) := by
  rw [splitFrom, if_pos hc]

/-- A character that needs no quotes has no meaning of its own. -/
theorem splitFrom_safe {c : Char} (hc : isSafe c = true) (word : Option (List Char))
    (rest : List Char) :
    splitFrom .plain word (c :: rest) = splitFrom .plain (extend word c) rest := by
  have hseparator : isSeparator c = false := by
    rw [Bool.eq_false_iff]
    intro hblank
    simp only [isSeparator, Bool.or_eq_true, beq_iff_eq] at hblank
    rcases hblank with ((rfl | rfl) | rfl) | rfl <;> exact absurd hc (by decide)
  have hne : ∀ {x}, isSafe x = false → c ≠ x := by
    rintro x hx rfl
    rw [hx] at hc
    contradiction
  rw [splitFrom, if_neg (by simp [hseparator]), if_neg (hne (by decide)), if_neg (hne (by decide)),
    if_neg (hne (by decide))]

/-- A run of characters that need no quotes belongs to the word. -/
theorem splitFrom_safe_append {run : List Char} (hrun : run.all isSafe = true) (word : List Char)
    (rest : List Char) :
    splitFrom .plain (some word) (run ++ rest) = splitFrom .plain (some (word ++ run)) rest := by
  induction run generalizing word with
  | nil => rw [List.nil_append, List.append_nil]
  | cons c run ih =>
      rw [List.all_cons, Bool.and_eq_true] at hrun
      rw [List.cons_append, splitFrom_safe hrun.1, extend, Option.getD_some, ih hrun.2,
        List.append_assoc, List.singleton_append]

/-- Within single quotes every character stands for itself.  An apostrophe is written outside of
them, between double quotes. -/
theorem splitFrom_single_quoted (word body rest : List Char) :
    splitFrom .single (some word)
        (body.flatMap (fun c => if c = '\'' then ['\'', '"', '\'', '"', '\''] else [c]) ++
          '\'' :: rest) =
      splitFrom .plain (some (word ++ body)) rest := by
  induction body generalizing word with
  | nil =>
      rw [List.flatMap_nil, List.nil_append, splitFrom, if_pos rfl, List.append_nil]
  | cons c body ih =>
      have hword : word ++ c :: body = (word ++ [c]) ++ body := by
        rw [List.append_assoc, List.singleton_append]
      rw [List.flatMap_cons, hword, ← ih]
      split
      next hc => simp [splitFrom, isSeparator, extend, hc]
      next hc => simp [splitFrom, extend, hc]

/-- A word as it is written in a command line is read as that word. -/
theorem splitFrom_quoteChars (word rest : List Char) :
    splitFrom .plain none (quoteChars word ++ rest) = splitFrom .plain (some word) rest := by
  unfold quoteChars
  split_ifs with hempty hsafe
  · rw [List.isEmpty_iff.mp hempty]
    simp [splitFrom, isSeparator]
  · cases word with
    | nil => exact absurd rfl hempty
    | cons c word =>
        rw [List.all_cons, Bool.and_eq_true] at hsafe
        rw [List.cons_append, splitFrom_safe hsafe.1, extend, splitFrom_safe_append hsafe.2]
        rfl
  · have hquoted := splitFrom_single_quoted [] word rest
    rw [List.nil_append] at hquoted
    rw [List.append_assoc, List.cons_append, List.cons_append, List.nil_append, ← hquoted]
    simp [splitFrom, isSeparator]

/-- Joined words are split into the same words. -/
theorem splitFrom_intercalate (word : List Char) (words : List (List Char)) :
    splitFrom .plain none ([' '].intercalate ((word :: words).map quoteChars)) =
      some (word :: words) := by
  induction words generalizing word with
  | nil =>
      have hword := splitFrom_quoteChars word []
      rw [List.append_nil] at hword
      rw [List.map_singleton, List.intercalate_singleton, hword]
      rfl
  | cons next words ih =>
      rw [List.map_cons, List.map_cons, List.intercalate_cons_cons, ← List.map_cons,
        List.append_assoc, List.singleton_append, splitFrom_quoteChars,
        splitFrom_separator (by decide), ih]
      rfl

theorem toList_join (words : List String) :
    (join words).toList = [' '].intercalate ((words.map String.toList).map quoteChars) := by
  have hquoted : (String.toList ∘ quoteWord) = quoteChars ∘ String.toList :=
    funext fun word => String.toList_ofList
  rw [join, String.toList_intercalate, List.map_map, List.map_map, hquoted]
  rfl

theorem parse_join (word : String) (words : List String) :
    parse (join (word :: words)) = some (word :: words) := by
  rw [parse, toList_join, List.map_cons, splitFrom_intercalate]
  simp

/-! ## Complete lines -/

/-- What may stand within double quotes: a backslash always has a character behind it. -/
inductive InDouble : List Char → Prop
  | nil : InDouble []
  | plain {body : List Char} (c : Char) (hquote : c ≠ '"') (hback : c ≠ '\\') :
    InDouble body → InDouble (body ++ [c])
  | escaped {body : List Char} (c : Char) : InDouble body → InDouble (body ++ ['\\', c])

/-- A line that may stop where it does. -/
inductive Complete : List Char → Prop
  | nil : Complete []
  | plain {line : List Char} (c : Char) (hsingle : c ≠ '\'') (hdouble : c ≠ '"')
    (hback : c ≠ '\\') : Complete line → Complete (line ++ [c])
  | escaped {line : List Char} (c : Char) : Complete line → Complete (line ++ ['\\', c])
  | single {line : List Char} (body : List Char) (hbody : '\'' ∉ body) :
    Complete line → Complete (line ++ '\'' :: body ++ ['\''])
  | double {line : List Char} {body : List Char} (hbody : InDouble body) :
    Complete line → Complete (line ++ '"' :: body ++ ['"'])

/-- The line stops within single quotes. -/
def StopsInSingle (line : List Char) : Prop :=
  ∃ front body, Complete front ∧ '\'' ∉ body ∧ line = front ++ '\'' :: body

/-- The line stops within double quotes. -/
def StopsInDouble (line : List Char) : Prop :=
  ∃ front body, Complete front ∧ InDouble body ∧ line = front ++ '"' :: body

/-- The line stops behind a backslash that would escape the next character. -/
def StopsEscaping (line : List Char) : Prop :=
  ∃ front, (Complete front ∨ StopsInDouble front) ∧ line = front ++ ['\\']

/-- Where the reading stands behind one more character. -/
def Reading.next : Reading → Char → Reading
  | .plain, c =>
    if c = '\'' then .single else if c = '"' then .double else if c = '\\' then .escape else .plain
  | .single, c => if c = '\'' then .plain else .single
  | .double, c => if c = '"' then .plain else if c = '\\' then .doubleEscape else .double
  | .escape, _ => .plain
  | .doubleEscape, _ => .double

/-- Where the reading stands behind a text. -/
def Reading.after (reading : Reading) (text : List Char) : Reading :=
  text.foldl Reading.next reading

theorem Reading.after_concat (reading : Reading) (text : List Char) (c : Char) :
    reading.after (text ++ [c]) = (reading.after text).next c := by
  rw [Reading.after, List.foldl_append]
  rfl

theorem Reading.after_append (reading : Reading) (front text : List Char) :
    reading.after (front ++ text) = (reading.after front).after text :=
  List.foldl_append

/-- What a line is in whose end the reading stands so. -/
def Reading.Describes : Reading → List Char → Prop
  | .plain, line => Complete line
  | .single, line => StopsInSingle line
  | .double, line => StopsInDouble line
  | .escape, line => ∃ front, Complete front ∧ line = front ++ ['\\']
  | .doubleEscape, line => ∃ front, StopsInDouble front ∧ line = front ++ ['\\']

theorem Reading.Describes.next {reading : Reading} {line : List Char}
    (hline : reading.Describes line) (c : Char) : (reading.next c).Describes (line ++ [c]) := by
  cases reading with
  | plain =>
      have hcomplete : Complete line := hline
      rw [Reading.next]
      split_ifs with hsingle hdouble hback
      · exact ⟨line, [], hcomplete, List.not_mem_nil, by rw [hsingle]⟩
      · exact ⟨line, [], hcomplete, .nil, by rw [hdouble]⟩
      · exact ⟨line, hcomplete, by rw [hback]⟩
      · exact hcomplete.plain c hsingle hdouble hback
  | single =>
      obtain ⟨front, body, hfront, hbody, rfl⟩ := hline
      rw [Reading.next]
      split_ifs with hquote
      · rw [hquote]
        exact hfront.single body hbody
      · refine ⟨front, body ++ [c], hfront, ?_, by simp⟩
        simpa [hbody] using fun h : '\'' = c => hquote h.symm
  | double =>
      obtain ⟨front, body, hfront, hbody, rfl⟩ := hline
      rw [Reading.next]
      split_ifs with hquote hback
      · rw [hquote]
        exact hfront.double hbody
      · exact ⟨_, ⟨front, body, hfront, hbody, rfl⟩, by rw [hback]⟩
      · exact ⟨front, body ++ [c], hfront, hbody.plain c hquote hback, by simp⟩
  | escape =>
      obtain ⟨front, hfront, rfl⟩ := hline
      have hescaped := hfront.escaped c
      rwa [show front ++ ['\\', c] = front ++ ['\\'] ++ [c] by simp] at hescaped
  | doubleEscape =>
      obtain ⟨_, ⟨front, body, hfront, hbody, rfl⟩, rfl⟩ := hline
      exact ⟨front, body ++ ['\\', c], hfront, hbody.escaped c, by simp⟩

/-- The state of the reading describes the line so far. -/
theorem Reading.describes_after (line : List Char) :
    (Reading.plain.after line).Describes line := by
  induction line using List.reverseRecOn with
  | nil => exact Complete.nil
  | append_singleton line c ih =>
      rw [Reading.after_concat]
      exact ih.next c

theorem Reading.after_single {body : List Char} (hbody : '\'' ∉ body) :
    Reading.single.after body = .single := by
  induction body with
  | nil => rfl
  | cons c body ih =>
      rw [List.mem_cons, not_or] at hbody
      rw [Reading.after, List.foldl_cons, Reading.next, if_neg (Ne.symm hbody.1)]
      exact ih hbody.2

theorem InDouble.after {body : List Char} (hbody : InDouble body) :
    Reading.double.after body = .double := by
  induction hbody with
  | nil => rfl
  | plain c hquote hback _ ih =>
      rw [Reading.after_concat, ih, Reading.next, if_neg hquote, if_neg hback]
  | escaped c _ ih =>
      rw [Reading.after_append, ih]
      rfl

theorem Complete.after {line : List Char} (hline : Complete line) :
    Reading.plain.after line = .plain := by
  induction hline with
  | nil => rfl
  | plain c hsingle hdouble hback _ ih =>
      rw [Reading.after_concat, ih, Reading.next, if_neg hsingle, if_neg hdouble, if_neg hback]
  | escaped c _ ih =>
      rw [Reading.after_append, ih]
      rfl
  | single body hbody _ ih =>
      rw [Reading.after_concat, Reading.after_append, ih]
      show (Reading.single.after body).next '\'' = .plain
      rw [Reading.after_single hbody]
      rfl
  | double hbody _ ih =>
      rw [Reading.after_concat, Reading.after_append, ih]
      show (Reading.double.after _).next '"' = .plain
      rw [hbody.after]
      rfl

theorem StopsInDouble.after {line : List Char} (hline : StopsInDouble line) :
    Reading.plain.after line = .double := by
  obtain ⟨front, body, hfront, hbody, rfl⟩ := hline
  rw [Reading.after_append, hfront.after]
  exact hbody.after

/-- A line is described by one state only. -/
theorem Reading.Describes.after_eq {reading : Reading} {line : List Char}
    (hline : reading.Describes line) : Reading.plain.after line = reading := by
  cases reading with
  | plain => exact Complete.after hline
  | single =>
      obtain ⟨front, body, hfront, hbody, rfl⟩ := hline
      rw [Reading.after_append, hfront.after]
      exact Reading.after_single hbody
  | double => exact StopsInDouble.after hline
  | escape =>
      obtain ⟨front, hfront, rfl⟩ := hline
      rw [Reading.after_concat, hfront.after]
      rfl
  | doubleEscape =>
      obtain ⟨front, hfront, rfl⟩ := hline
      rw [Reading.after_concat, hfront.after]
      rfl

theorem complete_iff_after (line : List Char) :
    Complete line ↔ Reading.plain.after line = .plain := by
  refine ⟨Complete.after, fun hafter => ?_⟩
  have hdescribes := Reading.describes_after line
  rwa [hafter] at hdescribes

/-- What is not complete stops within quotes or behind a backslash. -/
theorem not_complete_iff (line : List Char) :
    ¬Complete line ↔ (StopsInSingle line ∨ StopsInDouble line) ∨ StopsEscaping line := by
  constructor
  · intro hline
    have hdescribes := Reading.describes_after line
    cases hafter : Reading.plain.after line with
    | plain => exact absurd ((complete_iff_after line).mpr hafter) hline
    | single =>
        rw [hafter] at hdescribes
        exact Or.inl (Or.inl hdescribes)
    | double =>
        rw [hafter] at hdescribes
        exact Or.inl (Or.inr hdescribes)
    | escape =>
        rw [hafter] at hdescribes
        obtain ⟨front, hfront, hline⟩ := hdescribes
        exact Or.inr ⟨front, Or.inl hfront, hline⟩
    | doubleEscape =>
        rw [hafter] at hdescribes
        obtain ⟨front, hfront, hline⟩ := hdescribes
        exact Or.inr ⟨front, Or.inr hfront, hline⟩
  · intro hstops hline
    have hother : ∀ {reading : Reading}, reading.Describes line → reading = .plain :=
      fun hdescribes => hdescribes.after_eq.symm.trans hline.after
    rcases hstops with (hsingle | hdouble) | ⟨front, hfront | hfront, hback⟩
    · exact absurd (@hother .single hsingle) (by decide)
    · exact absurd (@hother .double hdouble) (by decide)
    · exact absurd (@hother .escape ⟨front, hfront, hback⟩) (by decide)
    · exact absurd (@hother .doubleEscape ⟨front, hfront, hback⟩) (by decide)

/-! ## Refused lines -/

/-- Whether a line is split depends on where its reading ends. -/
theorem splitFrom_eq_none_iff (reading : Reading) (word : Option (List Char)) (line : List Char) :
    splitFrom reading word line = none ↔ reading.after line ≠ .plain := by
  induction line generalizing reading word with
  | nil =>
      cases reading with
      | _ => simp [splitFrom, Reading.after]
  | cons c line ih =>
      have hnext : reading.after (c :: line) = (reading.next c).after line := rfl
      rw [hnext]
      cases reading with
      | plain =>
          by_cases hseparator : isSeparator c = true
          · have hplain : Reading.plain.next c = .plain := by
              simp only [isSeparator, Bool.or_eq_true, beq_iff_eq] at hseparator
              rcases hseparator with ((rfl | rfl) | rfl) | rfl <;> rfl
            rw [splitFrom_separator hseparator, Option.map_eq_none_iff, hplain]
            exact ih _ _
          · rw [splitFrom, if_neg hseparator, Reading.next]
            split_ifs <;> exact ih _ _
      | single =>
          rw [splitFrom, Reading.next]
          split_ifs <;> exact ih _ _
      | double =>
          rw [splitFrom, Reading.next]
          split_ifs <;> exact ih _ _
      | escape =>
          rw [splitFrom]
          exact ih _ _
      | doubleEscape =>
          rw [splitFrom]
          split_ifs <;> exact ih _ _

/-- A word that has begun is not lost. -/
theorem splitFrom_some_ne_nil (reading : Reading) (word line : List Char) :
    splitFrom reading (some word) line ≠ some [] := by
  induction line generalizing reading word with
  | nil =>
      cases reading with
      | _ => simp [splitFrom, finished]
  | cons c line ih =>
      cases reading with
      | plain =>
          by_cases hseparator : isSeparator c = true
          · rw [splitFrom_separator hseparator]
            simp [finished]
          · rw [splitFrom, if_neg hseparator]
            split_ifs <;> exact ih _ _
      | single =>
          rw [splitFrom]
          split_ifs <;> exact ih _ _
      | double =>
          rw [splitFrom]
          split_ifs <;> exact ih _ _
      | escape =>
          rw [splitFrom]
          exact ih _ _
      | doubleEscape =>
          rw [splitFrom]
          split_ifs <;> exact ih _ _

/-- Only separators have no words. -/
theorem splitFrom_eq_nil_iff (line : List Char) :
    splitFrom .plain none line = some [] ↔ ∀ c ∈ line, isSeparator c = true := by
  induction line with
  | nil => simp [splitFrom, finished]
  | cons c line ih =>
      rw [List.forall_mem_cons]
      by_cases hseparator : isSeparator c = true
      · rw [splitFrom_separator hseparator, ← ih]
        simp [finished, hseparator]
      · rw [splitFrom, if_neg hseparator]
        refine iff_of_false ?_ fun hall => hseparator hall.1
        split_ifs
        · exact splitFrom_some_ne_nil _ _ _
        · exact splitFrom_some_ne_nil _ _ _
        · cases line with
          | nil => simp [splitFrom]
          | cons next line =>
              rw [splitFrom]
              exact splitFrom_some_ne_nil _ _ _
        · exact splitFrom_some_ne_nil _ _ _

theorem parse_eq_none_iff (line : String) :
    parse line = none ↔
      splitFrom .plain none line.toList = some [] ∨ splitFrom .plain none line.toList = none := by
  unfold parse
  split
  next hnone => simp [hnone]
  next hnil => simp [hnil]
  next words hne hwords => simpa [hwords] using hne

/-- Splitting gives joined words back, and refuses a line exactly if it has nothing but separators,
or stops within quotes, or stops behind a backslash that escapes. -/
theorem parse_undoes_join :
    (∀ word words, parse (join (word :: words)) = some (word :: words)) ∧
      ∀ line : String, parse line = none ↔
        (∀ c ∈ line.toList, c = ' ' ∨ c = '\t' ∨ c = '\r' ∨ c = '\n') ∨
          (StopsInSingle line.toList ∨ StopsInDouble line.toList) ∨ StopsEscaping line.toList := by
  refine ⟨parse_join, fun line => ?_⟩
  have hseparators : (∀ c ∈ line.toList, isSeparator c = true) ↔
      ∀ c ∈ line.toList, c = ' ' ∨ c = '\t' ∨ c = '\r' ∨ c = '\n' := by
    simp only [isSeparator, Bool.or_eq_true, beq_iff_eq, or_assoc]
  rw [parse_eq_none_iff, splitFrom_eq_nil_iff, hseparators, splitFrom_eq_none_iff,
    ← not_complete_iff, complete_iff_after]

end BuildRunner.Command
