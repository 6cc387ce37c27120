import BuildRunner.Message.Format
import BuildRunner.Proofs.Number.Spelling
import Mathlib.Tactic.MkIffOfInductiveProp
import Mathlib.Tactic.SplitIfs

/-!
# Conversions of a message format

A conversion has flags, a width, a precision, a size and a letter.  It writes a value, or does not
fit it, or runs out of a range: the width or the precision that a value asks for, or the value
itself.
-/

namespace BuildRunner.Message

open BuildRunner.Number

/-! ## The form of a conversion -/

def isFlag (c : Char) : Bool := c == '-' || c == '+' || c == ' ' || c == '#' || c == '0'

/-- The conversion with flags set. -/
def Conversion.flagged (conversion : Conversion) (flags : List Char) : Conversion :=
  { conversion with
    left := conversion.left || flags.contains '-'
    sign := conversion.sign || flags.contains '+'
    blank := conversion.blank || flags.contains ' '
    alternate := conversion.alternate || flags.contains '#'
    zero := conversion.zero || flags.contains '0' }

/-- The conversion with a width that a value asks for. -/
def Conversion.widened (conversion : Conversion) (n : Int) : Conversion :=
  if n < 0 then { conversion with left := true, width := n.natAbs }
  else { conversion with width := n.toNat }

/-- The width of a field, with the values that it uses. -/
inductive Width : List Char → List Value → Conversion → Conversion → Prop
  | given {text conversion} :
      text.all Char.isDigit = true → text.head? ≠ some '0' → naturalOf text ≤ greatestWidth →
        Width text [] conversion { conversion with width := naturalOf text }
  | asked {v : Value} {n : Int} {conversion} :
      v.integer? = some n → -greatestWidth - 1 ≤ n → n ≤ greatestWidth →
        Width ['*'] [v] conversion (conversion.widened n)

/-- The precision of a conversion, with the values that it uses. -/
inductive Precision : List Char → List Value → Option Nat → Prop
  | absent : Precision [] [] none
  | given {text} :
      text.all Char.isDigit = true → naturalOf text ≤ greatestPrecision →
        Precision ('.' :: text) [] (some (naturalOf text))
  | asked {v : Value} {n : Int} :
      v.integer? = some n → -greatestPrecision - 1 ≤ n → n ≤ greatestPrecision →
        Precision ['.', '*'] [v] (some n.toNat)

/-- The letters that may stand before that of a conversion. -/
def sizes : List (List Char) := [[], ['h'], ['l'], ['L']]

/-- The letters of conversions. -/
def letters : List Char :=
  ['s', 'r', 'a', 'c', 'd', 'i', 'u', 'o', 'x', 'X', 'e', 'E', 'f', 'F', 'g', 'G']

/-- A conversion behind its percent sign, with the values that its width and its precision use. -/
inductive Specified : List Char → List Value → Conversion → Char → Prop
  | intro {flags width precision size letter used used' conversion places} :
      flags.all isFlag = true → Width width used (Conversion.flagged {} flags) conversion →
        Precision precision used' places → size ∈ sizes → letter ∈ letters →
          Specified (flags ++ (width ++ (precision ++ (size ++ [letter])))) (used ++ used')
            { conversion with precision := places } letter

/-! ## What runs out of a range -/

/-- A value is out of the range of a letter, for a number of places. -/
@[mk_iff beyond_iff]
inductive Beyond (places : Nat) : Char → Value → RangeError → Prop
  | codePoint {v : Value} {n : Int} :
      v.integer? = some n → n < 0 ∨ 0x110000 ≤ n → Beyond places 'c' v .codePoint
  | infinity {letter negative} :
      letter ∈ ['d', 'i', 'u'] → Beyond places letter (.float (.infinite negative)) .infinityToInt
  | places {letter} {v : Value} {n : Int} :
      (letter ∈ ['d', 'i', 'u'] ∧ toInteger v = .ok n) ∨
          (letter ∈ ['o', 'x', 'X'] ∧ v.integer? = some n) →
        greatestPrecision - 3 < places → Beyond places letter v .longPrecision
  | float {letter} {v : Value} {n : Int} :
      letter ∈ ['e', 'E', 'f', 'F', 'g', 'G'] → v.integer? = some n →
        Binary64.overflowBound ≤ n.natAbs → Beyond places letter v .intToFloat
  | nesting {letter} {v : Value} :
      letter ∈ ['s', 'r', 'a'] → v.fault? Value.greatestDepth = some .nesting →
        Beyond places letter v (.unwritten .nesting)

/-- A conversion behind its percent sign runs out of a range. -/
inductive Overruns : List Char → List Value → RangeError → Prop
  | width {flags} {v : Value} {n : Int} {rest left} :
      flags.all isFlag = true → v.integer? = some n →
        n < -greatestWidth - 1 ∨ greatestWidth < n →
          Overruns (flags ++ '*' :: rest) (v :: left) .width
  | precision {flags width used conversion} {v : Value} {n : Int} {rest left} :
      flags.all isFlag = true → Width width used (Conversion.flagged {} flags) conversion →
        v.integer? = some n → n < -greatestPrecision - 1 ∨ greatestPrecision < n →
          Overruns (flags ++ (width ++ '.' :: '*' :: rest)) (used ++ v :: left) .precision
  | value {spec used conversion letter v cause rest left} :
      Specified spec used conversion letter →
        Beyond (conversion.precision.getD 0) letter v cause →
          Overruns (spec ++ rest) (used ++ v :: left) cause

/-! ## One value -/

section

variable {cause : RangeError} {v : Value}

theorem integerField_range_iff {conversion : Conversion} {letter : Char} {n : Int} :
    integerField conversion letter n = .error (.range cause) ↔
      greatestPrecision - 3 < conversion.precision.getD 0 ∧ cause = .longPrecision := by
  unfold integerField
  dsimp only
  split_ifs with hlong hinteger
  · simp [hlong, eq_comm]
  · simp [hlong]
  · simp [hlong]

theorem toInteger_range_iff : toInteger v = .error (.range cause) ↔
    ∃ negative, v = .float (.infinite negative) ∧ cause = .infinityToInt := by
  unfold toInteger
  split
  · next negative => simp [eq_comm]
  · next x hx =>
      have hfinite : ∀ negative, x ≠ .infinite negative := fun negative h => hx negative (h ▸ rfl)
      cases x.truncate? <;> simp [hfinite]
  · next hx =>
      have hother : ∀ negative, v ≠ .float (.infinite negative) := fun negative => hx _
      cases v.integer? <;> simp [hother]

theorem toCharacter_range_iff : toCharacter v = .error (.range cause) ↔
    ∃ n, v.integer? = some n ∧ (n < 0 ∨ 0x110000 ≤ n) ∧ cause = .codePoint := by
  unfold toCharacter
  split
  · next s =>
      simp only [Value.integer?, reduceCtorEq, false_and, exists_false, iff_false]
      split <;> simp
  · cases v.integer? with
    | none => simp
    | some n =>
        dsimp only
        split_ifs with hrange
        · simp [hrange, eq_comm]
        · simp [hrange]

theorem isFinite_ofInt (n : Int) :
    (Binary64.ofInt n).isFinite = true ↔ (n.natAbs : ℚ) < Binary64.overflowBound := by
  unfold Binary64.ofInt
  rcases Nat.eq_zero_or_pos n.natAbs with hzero | hpos
  · rw [hzero, Binary64.ofRatio, if_pos rfl, Nat.cast_zero]
    exact iff_of_true rfl (lt_of_lt_of_le (by positivity) Binary64.two_pow_le_overflowBound)
  · rw [Binary64.isFinite_ofRatio hpos one_pos, Nat.cast_one, div_one]

theorem toFloat_range_iff : toFloat v = .error (.range cause) ↔
    ∃ n, v.integer? = some n ∧ Binary64.overflowBound ≤ n.natAbs ∧ cause = .intToFloat := by
  unfold toFloat
  split
  · next x => simp [Value.integer?]
  · cases v.integer? with
    | none => simp
    | some n =>
        have hfinite := isFinite_ofInt n
        dsimp only
        split_ifs with h
        · have hsmall := not_le.mpr (hfinite.mp h)
          simp only [Option.some.injEq, false_iff, not_exists]
          rintro _ ⟨rfl, hlarge, -⟩
          exact hsmall hlarge
        · have hlarge := not_lt.mp (hfinite.not.mp h)
          simp only [Except.error.injEq, FormatError.range.injEq, Option.some.injEq]
          constructor
          · rintro rfl
            exact ⟨n, rfl, hlarge, rfl⟩
          · rintro ⟨_, -, -, rfl⟩
            rfl

theorem literal?_range_iff : v.literal?.mapError FormatError.ofFault = .error (.range cause) ↔
    v.fault? Value.greatestDepth = some .nesting ∧ cause = .unwritten .nesting := by
  unfold Value.literal?
  cases v.fault? Value.greatestDepth with
  | none => simp [Except.mapError]
  | some fault => cases fault <;> simp [Except.mapError, FormatError.ofFault, eq_comm]

theorem plain?_range_iff : v.plain?.mapError FormatError.ofFault = .error (.range cause) ↔
    v.fault? Value.greatestDepth = some .nesting ∧ cause = .unwritten .nesting := by
  unfold Value.plain?
  split
  · next s => simp [Except.mapError, Value.fault?, Value.greatestDepth]
  · exact literal?_range_iff

theorem Beyond.mem_letters {places : Nat} {letter : Char} (h : Beyond places letter v cause) :
    letter ∈ letters := by
  cases h with
  | codePoint => decide
  | infinity hletter => exact forall_mem_of_all (by decide) _ hletter
  | places hnumber =>
      obtain ⟨hletter, -⟩ | ⟨hletter, -⟩ := hnumber
      · exact forall_mem_of_all (by decide) _ hletter
      · exact forall_mem_of_all (by decide) _ hletter
  | float hletter =>
      exact forall_mem_of_all (by decide) _ hletter
  | nesting hletter => exact forall_mem_of_all (by decide) _ hletter

theorem bind_ok_eq_error_iff {α β ε : Type} {x : Except ε α} {f : α → β} {e : ε} :
    (x >>= fun a => .ok (f a)) = .error e ↔ x = .error e := by
  cases x <;> simp [bind, Except.bind]

theorem bind_eq_error_iff {α β ε : Type} {x : Except ε α} {f : α → Except ε β} {e : ε} :
    (x >>= f) = .error e ↔ x = .error e ∨ ∃ a, x = .ok a ∧ f a = .error e := by
  cases x <;> simp [bind, Except.bind]

/-- A conversion runs out of a range exactly if the value is beyond it. -/
theorem convert_range_iff {conversion : Conversion} {letter : Char} :
    convert conversion letter v = .error (.range cause) ↔
      Beyond (conversion.precision.getD 0) letter v cause := by
  have hwhole : ∀ letter, (toInteger v >>= fun n =>
      integerField conversion letter n >>= fun field =>
        .ok (field.render conversion)) = .error (.range cause) ↔
        (∃ negative, v = .float (.infinite negative) ∧ cause = .infinityToInt) ∨
          ∃ n, toInteger v = .ok n ∧
            greatestPrecision - 3 < conversion.precision.getD 0 ∧ cause = .longPrecision := by
    intro letter
    rw [bind_eq_error_iff, toInteger_range_iff]
    simp only [bind_ok_eq_error_iff, integerField_range_iff]
  unfold convert
  split
  · rw [bind_ok_eq_error_iff, plain?_range_iff]
    simp [beyond_iff]
  · rw [bind_ok_eq_error_iff, literal?_range_iff]
    simp [beyond_iff]
  · rw [bind_ok_eq_error_iff, literal?_range_iff]
    simp [beyond_iff]
  · rw [bind_ok_eq_error_iff, toCharacter_range_iff]
    simp [beyond_iff]
  · rw [hwhole]
    simp [beyond_iff]
  · rw [hwhole]
    simp [beyond_iff]
  · rw [hwhole]
    simp [beyond_iff]
  · cases hv : v.integer? with
    | none => simp [beyond_iff, hv]
    | some n => simp [bind_ok_eq_error_iff, integerField_range_iff, beyond_iff, hv]
  · cases hv : v.integer? with
    | none => simp [beyond_iff, hv]
    | some n => simp [bind_ok_eq_error_iff, integerField_range_iff, beyond_iff, hv]
  · cases hv : v.integer? with
    | none => simp [beyond_iff, hv]
    | some n => simp [bind_ok_eq_error_iff, integerField_range_iff, beyond_iff, hv]
  · rw [bind_ok_eq_error_iff, toFloat_range_iff]
    simp [beyond_iff]
  · rw [bind_ok_eq_error_iff, toFloat_range_iff]
    simp [beyond_iff]
  · rw [bind_ok_eq_error_iff, toFloat_range_iff]
    simp [beyond_iff]
  · rw [bind_ok_eq_error_iff, toFloat_range_iff]
    simp [beyond_iff]
  · rw [bind_ok_eq_error_iff, toFloat_range_iff]
    simp [beyond_iff]
  · rw [bind_ok_eq_error_iff, toFloat_range_iff]
    simp [beyond_iff]
  · refine iff_of_false nofun fun h => ?_
    have hmem := h.mem_letters
    simp only [letters, List.mem_cons, List.not_mem_nil, or_false] at hmem
    grind

end

/-! ## The parts of a conversion -/

theorem takeFlags_cons {c : Char} {r : List Char} (conversion : Conversion)
    (hc : isFlag c = true) :
    takeFlags conversion (c :: r) = takeFlags (conversion.flagged [c]) r := by
  simp only [isFlag, Bool.or_eq_true, beq_iff_eq] at hc
  obtain (((rfl | rfl) | rfl) | rfl) | rfl := hc <;>
    simp [takeFlags, Conversion.flagged]

theorem takeFlags_of_not_flag {r : List Char} (conversion : Conversion)
    (hr : ∀ c ∈ r.head?, isFlag c = false) : takeFlags conversion r = (conversion, r) := by
  rw [takeFlags]
  all_goals
    rintro _ rfl
    exact absurd (hr _ rfl) (by decide)

theorem flagged_cons (conversion : Conversion) (c : Char) (flags : List Char) :
    conversion.flagged (c :: flags) = (conversion.flagged [c]).flagged flags := by
  simp [Conversion.flagged, Bool.or_assoc]

theorem takeFlags_append {flags r : List Char} (conversion : Conversion)
    (hflags : flags.all isFlag = true) (hr : ∀ c ∈ r.head?, isFlag c = false) :
    takeFlags conversion (flags ++ r) = (conversion.flagged flags, r) := by
  induction flags generalizing conversion with
  | nil =>
      rw [List.nil_append, takeFlags_of_not_flag conversion hr]
      simp [Conversion.flagged]
  | cons c flags ih =>
      rw [List.all_cons, Bool.and_eq_true] at hflags
      rw [List.cons_append, takeFlags_cons conversion hflags.1, ih _ hflags.2,
        ← flagged_cons]

/-- The flags at the head of a format. -/
theorem exists_flags (s : List Char) : ∃ flags r, s = flags ++ r ∧ flags.all isFlag = true ∧
    ∀ c ∈ r.head?, isFlag c = false := by
  refine ⟨s.takeWhile isFlag, s.dropWhile isFlag, List.takeWhile_append_dropWhile.symm,
    List.all_takeWhile, fun c hc => ?_⟩
  have h := List.head?_dropWhile_not isFlag s
  rw [Option.mem_def.mp hc] at h
  simpa using h

/-- The value of digits behind a number. -/
def shifted (value : Nat) (digits : List Char) : Nat :=
  digits.foldl (fun n c => 10 * n + (c.toNat - '0'.toNat)) value

theorem le_shifted (value : Nat) (digits : List Char) : value ≤ shifted value digits := by
  induction digits generalizing value with
  | nil => exact le_rfl
  | cons c digits ih => exact le_trans (by omega) (ih (10 * value + (c.toNat - '0'.toNat)))

/-- A number at the head of a format is taken unless it is too large. -/
theorem takeNatural_append {bound value : Nat} {digits r : List Char} (hbound : 9 ≤ bound)
    (hvalue : value ≤ bound) (hdigits : digits.all Char.isDigit = true)
    (hr : ∀ c ∈ r.head?, c.isDigit = false) :
    takeNatural bound value (digits ++ r) =
      if shifted value digits ≤ bound then .ok (shifted value digits, r)
      else .error .mismatch := by
  induction digits generalizing value with
  | nil =>
      rw [List.nil_append, shifted, List.foldl_nil, if_pos hvalue]
      cases r with
      | nil => rfl
      | cons c r =>
          have hc : ¬c.isDigit = true := by rw [hr c rfl]; decide
          rw [takeNatural, if_neg hc]
  | cons c digits ih =>
      rw [List.all_cons, Bool.and_eq_true] at hdigits
      have hdigit := isDigit_iff.mp hdigits.1
      have hshifted : shifted value (c :: digits) =
        shifted (10 * value + (c.toNat - '0'.toNat)) digits := rfl
      rw [List.cons_append, takeNatural, if_pos hdigits.1, hshifted]
      dsimp only
      split_ifs with htoo hfits hfits
      · have hgrown := le_shifted (10 * value + (c.toNat - '0'.toNat)) digits
        omega
      · rfl
      · rw [ih (by omega) hdigits.2, if_pos hfits]
      · rw [ih (by omega) hdigits.2, if_neg hfits]

/-- The number at the head of a format. -/
theorem takeNatural_cases (bound : Nat) (hbound : 9 ≤ bound) (s : List Char) :
    ∃ digits r, s = digits ++ r ∧ digits.all Char.isDigit = true ∧
      takeNatural bound 0 s =
        if naturalOf digits ≤ bound then .ok (naturalOf digits, r) else .error .mismatch := by
  have hr : ∀ c ∈ (s.dropWhile Char.isDigit).head?, c.isDigit = false := by
    intro c hc
    have h := List.head?_dropWhile_not Char.isDigit s
    rw [Option.mem_def.mp hc] at h
    simpa using h
  have hdigits : (s.takeWhile Char.isDigit).all Char.isDigit = true := List.all_takeWhile
  have htake := takeNatural_append hbound (Nat.zero_le _) hdigits hr
  rw [List.takeWhile_append_dropWhile] at htake
  exact ⟨_, _, List.takeWhile_append_dropWhile.symm, hdigits, htake⟩

/-- A text that neither begins with a flag nor goes on with a width. -/
def Free (s : List Char) : Prop :=
  ∀ c ∈ s.head?, isFlag c = false ∧ c.isDigit = false ∧ c ≠ '*'

section

variable {conversion conversion' : Conversion} {text r : List Char} {used left values : List Value}
  {cause : RangeError}

/-- A width that a value asks for. -/
theorem takeWidth_asked {v : Value} {n : Int} (hv : v.integer? = some n) :
    takeWidth conversion ('*' :: r) (v :: left) =
      if n < -greatestWidth - 1 ∨ greatestWidth < n then .error (.range .width)
      else .ok (conversion.widened n, r, left) := by
  simp only [takeWidth, hv, Conversion.widened]
  split_ifs <;> rfl

/-- A width that the format gives. -/
theorem takeWidth_given (hr : ∀ s, r ≠ '*' :: s) :
    takeWidth conversion r values =
      (takeNatural greatestWidth 0 r).map fun (width, s) =>
        ({ conversion with width }, s, values) := by
  unfold takeWidth
  split
  · next s => exact absurd rfl (hr s)
  · cases takeNatural greatestWidth 0 r <;> rfl

/-- A precision that a value asks for. -/
theorem takePrecision_asked {v : Value} {n : Int} (hv : v.integer? = some n) :
    takePrecision conversion ('.' :: '*' :: r) (v :: left) =
      if n < -greatestPrecision - 1 ∨ greatestPrecision < n then .error (.range .precision)
      else .ok ({ conversion with precision := some n.toNat }, r, left) := by
  simp only [takePrecision, hv]

/-- A precision that the format gives. -/
theorem takePrecision_given (hr : ∀ s, r ≠ '*' :: s) :
    takePrecision conversion ('.' :: r) values =
      (takeNatural greatestPrecision 0 r).map fun (precision, s) =>
        ({ conversion with precision := some precision }, s, values) := by
  rw [takePrecision]
  · cases takeNatural greatestPrecision 0 r <;> rfl
  · rintro s ⟨⟩
    exact hr s rfl

theorem takePrecision_absent (hr : ∀ s, r ≠ '.' :: s) :
    takePrecision conversion r values = .ok (conversion, r, values) := by
  rw [takePrecision]
  · rintro s rfl
    exact hr _ rfl
  · rintro s rfl
    exact hr _ rfl

/-- Digits and what follows them do not begin with an asterisk. -/
theorem Free.ne_star (hr : Free r) (hdigits : text.all Char.isDigit = true) (s : List Char) :
    text ++ r ≠ '*' :: s := by
  intro h
  cases text with
  | nil => exact (hr '*' (by rw [← List.nil_append r, h]; rfl)).2.2 rfl
  | cons c text =>
      obtain ⟨rfl, -⟩ := List.cons.inj h
      rw [List.all_cons, Bool.and_eq_true] at hdigits
      exact absurd hdigits.1 (by decide)

theorem takeWidth_append (hwidth : Width text used conversion conversion') (hr : Free r) :
    takeWidth conversion (text ++ r) (used ++ left) = .ok (conversion', r, left) := by
  cases hwidth with
  | given hdigits hzero hsmall =>
      rw [takeWidth_given (hr.ne_star hdigits),
        takeNatural_append (by decide) (Nat.zero_le _) hdigits fun c hc => (hr c hc).2.1]
      exact congrArg (Except.map _) (if_pos hsmall)
  | asked hv hlow hhigh =>
      rw [List.cons_append, List.nil_append, List.cons_append, List.nil_append, takeWidth_asked hv,
        if_neg (by omega)]

theorem takePrecision_append {places : Option Nat} (hprecision : Precision text used places)
    (hnone : conversion.precision = none) (hr : Free r) (hpoint : ∀ s, r ≠ '.' :: s) :
    takePrecision conversion (text ++ r) (used ++ left) =
      .ok ({ conversion with precision := places }, r, left) := by
  cases hprecision with
  | absent =>
      rw [List.nil_append, List.nil_append, takePrecision_absent hpoint, ← hnone]
  | given hdigits hsmall =>
      rw [List.cons_append, takePrecision_given (hr.ne_star hdigits),
        takeNatural_append (by decide) (Nat.zero_le _) hdigits fun c hc => (hr c hc).2.1]
      exact congrArg (Except.map _) (if_pos hsmall)
  | asked hv hlow hhigh =>
      rw [List.cons_append, List.cons_append, List.nil_append, List.cons_append, List.nil_append,
        takePrecision_asked hv, if_neg (by omega)]

/-- What becomes of a width. -/
theorem takeWidth_cases (conversion : Conversion) (values : List Value)
    (hr : r.head? ≠ some '0') :
    (∃ text used rest left conversion', r = text ++ rest ∧ values = used ++ left ∧
        Width text used conversion conversion' ∧
        takeWidth conversion r values = .ok (conversion', rest, left)) ∨
      takeWidth conversion r values = .error .mismatch ∨
      ∃ v n rest left, r = '*' :: rest ∧ values = v :: left ∧ v.integer? = some n ∧
        (n < -greatestWidth - 1 ∨ greatestWidth < n) ∧
        takeWidth conversion r values = .error (.range .width) := by
  by_cases hstar : ∃ rest, r = '*' :: rest
  · obtain ⟨rest, rfl⟩ := hstar
    cases values with
    | nil => exact Or.inr (Or.inl rfl)
    | cons v left =>
        cases hv : v.integer? with
        | none => exact Or.inr (Or.inl (by simp [takeWidth, hv]))
        | some n =>
            rw [takeWidth_asked hv]
            split_ifs with hrange
            · exact Or.inr (Or.inr ⟨v, n, rest, left, rfl, rfl, hv, hrange, rfl⟩)
            · exact Or.inl
                ⟨['*'], [v], rest, left, _, rfl, rfl, .asked hv (by omega) (by omega), rfl⟩
  · rw [not_exists] at hstar
    rw [takeWidth_given hstar]
    obtain ⟨digits, rest, rfl, hdigits, htake⟩ := takeNatural_cases greatestWidth (by decide) r
    rw [htake]
    split_ifs with hsmall
    · refine Or.inl ⟨digits, [], rest, values, _, rfl, rfl, .given hdigits ?_ hsmall, rfl⟩
      cases digits with
      | nil => simp
      | cons c digits => simpa using hr
    · exact Or.inr (Or.inl rfl)

/-- What becomes of a precision. -/
theorem takePrecision_cases (r : List Char) (values : List Value)
    (hnone : conversion.precision = none) :
    (∃ text used rest left places, r = text ++ rest ∧ values = used ++ left ∧
        Precision text used places ∧
        takePrecision conversion r values =
          .ok ({ conversion with precision := places }, rest, left)) ∨
      takePrecision conversion r values = .error .mismatch ∨
      ∃ v n rest left, r = '.' :: '*' :: rest ∧ values = v :: left ∧ v.integer? = some n ∧
        (n < -greatestPrecision - 1 ∨ greatestPrecision < n) ∧
        takePrecision conversion r values = .error (.range .precision) := by
  by_cases hpoint : ∃ s, r = '.' :: s
  · obtain ⟨s, rfl⟩ := hpoint
    by_cases hstar : ∃ rest, s = '*' :: rest
    · obtain ⟨rest, rfl⟩ := hstar
      cases values with
      | nil => exact Or.inr (Or.inl rfl)
      | cons v left =>
          cases hv : v.integer? with
          | none => exact Or.inr (Or.inl (by simp [takePrecision, hv]))
          | some n =>
              rw [takePrecision_asked hv]
              split_ifs with hrange
              · exact Or.inr (Or.inr ⟨v, n, rest, left, rfl, rfl, hv, hrange, rfl⟩)
              · exact Or.inl ⟨['.', '*'], [v], rest, left, _, rfl, rfl,
                  .asked hv (by omega) (by omega), rfl⟩
    · rw [not_exists] at hstar
      rw [takePrecision_given hstar]
      obtain ⟨digits, rest, rfl, hdigits, htake⟩ :=
        takeNatural_cases greatestPrecision (by decide) s
      rw [htake]
      split_ifs with hsmall
      · exact Or.inl ⟨'.' :: digits, [], rest, values, _, rfl, rfl, .given hdigits hsmall, rfl⟩
      · exact Or.inr (Or.inl rfl)
  · rw [not_exists] at hpoint
    rw [takePrecision_absent hpoint]
    exact Or.inl ⟨[], [], r, values, none, rfl, rfl, .absent, by rw [← hnone]⟩

theorem Width.precision_eq (h : Width text used conversion conversion') :
    conversion'.precision = conversion.precision := by
  cases h with
  | given => rfl
  | asked =>
      unfold Conversion.widened
      split_ifs <;> rfl

end

/-- A size at the head of a format is dropped. -/
theorem exists_size (s : List Char) : ∃ size ∈ sizes, s = size ++ dropSize s := by
  unfold dropSize
  split
  · exact ⟨['h'], by decide, rfl⟩
  · exact ⟨['l'], by decide, rfl⟩
  · exact ⟨['L'], by decide, rfl⟩
  · exact ⟨[], by decide, rfl⟩

/-- A letter of a conversion is not part of anything before it. -/
theorem letter_apart : ∀ letter ∈ letters, isFlag letter = false ∧ letter.isDigit = false ∧
    letter ≠ '*' ∧ letter ≠ '.' ∧ letter ≠ '%' ∧ letter ≠ 'h' ∧ letter ≠ 'l' ∧ letter ≠ 'L' :=
  forall_mem_of_all (by decide)

theorem dropSize_append {size rest : List Char} {letter : Char} (hsize : size ∈ sizes)
    (hletter : letter ∈ letters) : dropSize (size ++ letter :: rest) = letter :: rest := by
  obtain ⟨-, -, -, -, -, hh, hl, hL⟩ := letter_apart letter hletter
  simp only [sizes, List.mem_cons, List.not_mem_nil, or_false] at hsize
  obtain rfl | rfl | rfl | rfl := hsize
  · rw [List.nil_append, dropSize]
    all_goals
      rintro _ ⟨⟩
      contradiction
  · rfl
  · rfl
  · rfl

/-- The head of a size with a letter. -/
theorem free_size {size : List Char} {letter : Char} (hsize : size ∈ sizes)
    (hletter : letter ∈ letters) (rest : List Char) :
    Free (size ++ letter :: rest) ∧ ∀ s, size ++ letter :: rest ≠ '.' :: s := by
  obtain ⟨hflag, hdigit, hstar, hpoint, -⟩ := letter_apart letter hletter
  simp only [sizes, List.mem_cons, List.not_mem_nil, or_false] at hsize
  obtain rfl | rfl | rfl | rfl := hsize
  · refine ⟨?_, fun s h => hpoint (List.cons.inj h).1⟩
    rintro c ⟨⟩
    exact ⟨hflag, hdigit, hstar⟩
  all_goals
    refine ⟨?_, fun s h => absurd (List.cons.inj h).1 (by decide)⟩
    rintro c ⟨⟩
    decide

theorem free_precision {text r : List Char} {used : List Value} {places : Option Nat}
    (hprecision : Precision text used places) (hr : Free r) : Free (text ++ r) := by
  cases hprecision with
  | absent => exact hr
  | given =>
      rintro c ⟨⟩
      decide
  | asked =>
      rintro c ⟨⟩
      decide

/-- A width does not begin with a flag. -/
theorem not_flag_width {text r : List Char} {used : List Value}
    {conversion conversion' : Conversion} (hwidth : Width text used conversion conversion') (hr : ∀ c ∈ r.head?, isFlag c = false) :
    ∀ c ∈ (text ++ r).head?, isFlag c = false := by
  cases hwidth with
  | given hdigits hzero =>
      cases text with
      | nil => exact hr
      | cons c text =>
          rintro _ ⟨⟩
          rw [List.all_cons, Bool.and_eq_true] at hdigits
          rw [← Bool.not_eq_true]
          intro hflag
          simp only [isFlag, Bool.or_eq_true, beq_iff_eq] at hflag
          obtain (((rfl | rfl) | rfl) | rfl) | rfl := hflag
          · exact absurd hdigits.1 (by decide)
          · exact absurd hdigits.1 (by decide)
          · exact absurd hdigits.1 (by decide)
          · exact absurd hdigits.1 (by decide)
          · exact hzero rfl
  | asked =>
      rintro c ⟨⟩
      decide

/-! ## A whole conversion -/

theorem fillOne_flags {flags r : List Char} {values : List Value}
    (hflags : flags.all isFlag = true) (hr : ∀ c ∈ r.head?, isFlag c = false) :
    fillOne (flags ++ r) values =
      (takeWidth (Conversion.flagged {} flags) r values >>= fun (conversion, format, values) =>
        takePrecision conversion format values >>= fun (conversion, format, values) =>
          match dropSize format, values with
          | [], _ => .error .mismatch
          | _ :: _, [] => .error .mismatch
          | letter :: format, v :: values =>
            convert conversion letter v >>= fun written => .ok (written, format, values)) := by
  unfold fillOne
  rewrite [takeFlags_append _ hflags hr]
  rfl

/-- A conversion is filled in with its value. -/
theorem fillOne_specified {spec rest : List Char} {used left : List Value} {v : Value}
    {conversion : Conversion} {letter : Char} (hspec : Specified spec used conversion letter) :
    fillOne (spec ++ rest) (used ++ v :: left) =
      (convert conversion letter v).map fun written => (written, rest, left) := by
  obtain @⟨flags, width, precision, size, letter, used, used', conversion, places, hflags, hwidth,
    hprecision, hsize, hletter⟩ := hspec
  obtain ⟨hfree, hpoint⟩ := free_size hsize hletter rest
  have hfreePrecision := free_precision hprecision hfree
  have hformat : flags ++ (width ++ (precision ++ (size ++ [letter]))) ++ rest =
      flags ++ (width ++ (precision ++ (size ++ letter :: rest))) := by simp
  have hnone : conversion.precision = none := hwidth.precision_eq
  rw [hformat, List.append_assoc, fillOne_flags hflags
    (not_flag_width hwidth fun c hc => (hfreePrecision c hc).1),
    takeWidth_append hwidth hfreePrecision]
  show (takePrecision conversion _ _ >>= _) = _
  rw [takePrecision_append hprecision hnone hfree hpoint]
  show (match dropSize (size ++ letter :: rest), v :: left with
    | [], _ => _
    | _ :: _, [] => _
    | letter :: format, v :: values => _) = _
  rw [dropSize_append hsize hletter]
  dsimp only
  cases convert { conversion with precision := places } letter v <;> rfl

theorem mem_letters_of_convert {conversion : Conversion} {letter : Char} {v : Value}
    (h : convert conversion letter v ≠ .error .mismatch) : letter ∈ letters := by
  unfold convert at h
  split at h
  all_goals first | decide | exact absurd rfl h

/-- A conversion is filled in, or does not fit, or its width or its precision is out of range. -/
theorem fillOne_cases (format : List Char) (values : List Value) :
    (∃ spec used conversion letter v rest left, format = spec ++ rest ∧ values = used ++ v :: left ∧
        Specified spec used conversion letter) ∨
      fillOne format values = .error .mismatch ∨
      ∃ cause, Overruns format values cause ∧ fillOne format values = .error (.range cause) := by
  obtain ⟨flags, r, rfl, hflags, hr⟩ := exists_flags format
  rw [fillOne_flags hflags hr]
  have hzero : r.head? ≠ some '0' := fun h => absurd (hr '0' h) (by decide)
  obtain ⟨width, used, r, left, conversion, rfl, rfl, hwidth, htake⟩ | htake |
    ⟨v, n, rest, left, rfl, rfl, hv, hrange, htake⟩ :=
      takeWidth_cases (Conversion.flagged {} flags) values hzero
  · have hnone : conversion.precision = none := hwidth.precision_eq
    rw [htake]
    show _ ∨ (takePrecision conversion r left >>= _) = _ ∨
      ∃ cause, _ ∧ (takePrecision conversion r left >>= _) = _
    obtain ⟨precision, used', r, left, places, rfl, rfl, hprecision, htake'⟩ | htake' |
      ⟨v, n, rest, left, rfl, rfl, hv, hrange, htake'⟩ := takePrecision_cases r left hnone
    · obtain ⟨size, hsize, heq⟩ := exists_size r
      rw [htake']
      show _ ∨ (match dropSize r, left with
        | [], _ => _
        | _ :: _, [] => _
        | letter :: format, v :: values => _) = _ ∨ _
      cases hdrop : dropSize r with
      | nil => exact Or.inr (Or.inl rfl)
      | cons letter rest =>
          cases left with
          | nil => exact Or.inr (Or.inl rfl)
          | cons v left =>
              by_cases hletter : letter ∈ letters
              · rw [heq, hdrop]
                refine Or.inl ⟨_, _, _, letter, v, rest, left, ?_, ?_,
                  .intro hflags hwidth hprecision hsize hletter⟩
                · simp
                · simp
              · have hmismatch : convert { conversion with precision := places } letter v =
                    .error .mismatch :=
                  not_not.mp fun h => hletter (mem_letters_of_convert h)
                dsimp only
                rw [hmismatch]
                exact Or.inr (Or.inl rfl)
    · rw [htake']
      exact Or.inr (Or.inl rfl)
    · rw [htake']
      exact Or.inr (Or.inr ⟨.precision, .precision hflags hwidth hv hrange, rfl⟩)
  · rw [htake]
    exact Or.inr (Or.inl rfl)
  · rw [htake]
    exact Or.inr (Or.inr ⟨.width, .width hflags hv hrange, rfl⟩)

/-- A conversion that is filled in takes its own part of the format and of the values. -/
theorem fillOne_ok_iff {format rest written : List Char} {values left : List Value} :
    fillOne format values = .ok (written, rest, left) ↔
      ∃ spec used conversion letter v, format = spec ++ rest ∧ values = used ++ v :: left ∧
        Specified spec used conversion letter ∧ convert conversion letter v = .ok written := by
  constructor
  · intro h
    obtain ⟨spec, used, conversion, letter, v, r, s, rfl, rfl, hspec⟩ | hmismatch |
      ⟨_, -, hrange⟩ := fillOne_cases format values
    · rw [fillOne_specified hspec] at h
      cases hconvert : convert conversion letter v with
      | error e => rw [hconvert] at h; cases h
      | ok head =>
          rw [hconvert] at h
          cases h
          exact ⟨spec, used, conversion, letter, v, rfl, rfl, hspec, hconvert⟩
    · rw [hmismatch] at h
      cases h
    · rw [hrange] at h
      cases h
  · rintro ⟨spec, used, conversion, letter, v, rfl, rfl, hspec, hconvert⟩
    rw [fillOne_specified hspec, hconvert]
    rfl

/-- A conversion runs out of a range where its width, its precision or its value does. -/
theorem fillOne_range_iff {format : List Char} {values : List Value} {cause : RangeError} :
    fillOne format values = .error (.range cause) ↔ Overruns format values cause := by
  constructor
  · intro h
    obtain ⟨spec, used, conversion, letter, v, r, s, rfl, rfl, hspec⟩ | hmismatch |
      ⟨other, hover, hrange⟩ := fillOne_cases format values
    · rw [fillOne_specified hspec] at h
      cases hconvert : convert conversion letter v with
      | error e =>
          rw [hconvert] at h
          cases h
          exact .value hspec (convert_range_iff.mp hconvert)
      | ok head => rw [hconvert] at h; cases h
    · rw [hmismatch] at h
      cases h
    · rw [hrange] at h
      cases h
      exact hover
  · rintro (⟨hflags, hv, hrange⟩ | ⟨hflags, hwidth, hv, hrange⟩ | ⟨hspec, hbeyond⟩)
    · rw [fillOne_flags hflags (by rintro _ ⟨⟩; decide), takeWidth_asked hv, if_pos hrange]
      rfl
    · have hfree : ∀ s, Free ('.' :: s) := by
        rintro s _ ⟨⟩
        decide
      rw [fillOne_flags hflags (not_flag_width hwidth fun c hc => (hfree _ c hc).1),
        takeWidth_append hwidth (hfree _)]
      show (takePrecision _ _ _ >>= _) = _
      rw [takePrecision_asked hv, if_pos hrange]
      rfl
    · rw [fillOne_specified hspec, convert_range_iff.mpr hbeyond]
      rfl

end BuildRunner.Message
