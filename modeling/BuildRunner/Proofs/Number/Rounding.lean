import BuildRunner.Number.Binary64
import Mathlib.Algebra.Order.Field.Power
import Mathlib.Data.Rat.Cast.Order
import Mathlib.Tactic.FieldSimp
import Mathlib.Tactic.Linarith
import Mathlib.Tactic.NormNum
import Mathlib.Tactic.Positivity
import Mathlib.Tactic.Ring

/-!
# Rounding to doubles

A quotient is rounded to a number that is infinite from half a step above the greatest finite number
on, and that is zero up to half of the least positive number.
-/

namespace BuildRunner.Number

/-! ## Rounding to integers -/

section

variable {n d k : Nat} (hd : 0 < d)

include hd

/-- A rounded quotient does not go below an integer that the quotient reaches. -/
theorem le_roundQuotient (h : k * d ≤ n) : k ≤ roundQuotient n d := by
  have hquotient : k ≤ n / d := (Nat.le_div_iff_mul_le hd).mpr h
  unfold roundQuotient
  dsimp only
  split_ifs
  · exact hquotient
  · omega
  · omega

/-- A rounded quotient does not go above an integer that the quotient does not exceed. -/
theorem roundQuotient_le (h : n ≤ k * d) : roundQuotient n d ≤ k := by
  have hdivision := Nat.div_add_mod n d
  have hrest := Nat.mod_lt n hd
  rcases Nat.lt_or_ge (n / d) k with hlt | hge
  · unfold roundQuotient
    dsimp only
    split_ifs
    · omega
    · omega
    · omega
  · -- the quotient is the integer itself
    have hproduct : k * d ≤ d * (n / d) := by
      rw [Nat.mul_comm k d]
      exact Nat.mul_le_mul_left d hge
    have hzero : n % d = 0 := by omega
    have hequal : n / d ≤ k := by
      have hle : d * (n / d) ≤ d * k := by rw [Nat.mul_comm d k]; omega
      exact Nat.le_of_mul_le_mul_left hle hd
    unfold roundQuotient
    dsimp only
    rw [hzero, if_pos (by omega)]
    exact hequal

/-- An even integer is reached from half below it on. -/
theorem even_le_roundQuotient_iff (hk : 0 < k) :
    2 * k ≤ roundQuotient n d ↔ (4 * k - 1) * d ≤ 2 * n := by
  have hdivision := Nat.div_add_mod n d
  have hrest := Nat.mod_lt n hd
  obtain ⟨j, rfl⟩ : ∃ j, k = j + 1 := ⟨k - 1, by omega⟩
  have hscale : (4 * (j + 1) - 1) * d = 4 * (j * d) + 3 * d := by
    rw [show 4 * (j + 1) - 1 = 4 * j + 3 by omega]
    ring
  rw [hscale]
  generalize hq : n / d = q at *
  generalize hr : n % d = r at *
  rcases Nat.lt_trichotomy q (2 * j + 1) with hlt | rfl | hgt
  · have hproduct : d * q ≤ d * (2 * j) := Nat.mul_le_mul_left d (by omega)
    have hcomm : d * (2 * j) = 2 * (j * d) := by ring
    constructor
    · intro h
      unfold roundQuotient at h
      rw [hq, hr] at h
      dsimp only at h
      split_ifs at h
      · omega
      · omega
      · omega
    · intro h
      omega
  · have hproduct : d * (2 * j + 1) = 2 * (j * d) + d := by ring
    unfold roundQuotient
    rw [hq, hr]
    dsimp only
    split_ifs
    · omega
    · omega
    · omega
  · have hproduct : d * (2 * j + 2) ≤ d * q := Nat.mul_le_mul_left d (by omega)
    have hcomm : d * (2 * j + 2) = 2 * (j * d) + 2 * d := by ring
    constructor
    · intro h
      omega
    · intro h
      exact le_trans (by omega) (le_roundQuotient hd (k := q) (by rw [Nat.mul_comm]; omega))

theorem roundQuotient_eq_zero_iff : roundQuotient n d = 0 ↔ 2 * n ≤ d := by
  constructor
  · intro h
    have hquotient : n / d = 0 ∧ 2 * (n % d) ≤ d := by
      unfold roundQuotient at h
      dsimp only at h
      split_ifs at h
      · exact ⟨h, by omega⟩
      · exact ⟨(Nat.add_eq_zero_iff.mp h).1, by omega⟩
    have hdivision := Nat.div_add_mod n d
    rw [hquotient.1] at hdivision
    omega
  · intro h
    have hrest : n % d = n := Nat.mod_eq_of_lt (by omega)
    unfold roundQuotient
    rw [Nat.div_eq_of_lt (by omega), hrest]
    dsimp only
    split_ifs
    · rfl
    · omega
    · rfl

end

/-! ## Quotients -/

theorem scaled_pos {n d b : Nat} (hn : 0 < n) (hd : 0 < d) (hb : 0 < b) (power : Int) :
    0 < (scaled n d b power).1 ∧ 0 < (scaled n d b power).2 := by
  cases power with
  | ofNat k => exact ⟨Nat.mul_pos hn (Nat.pow_pos hb), hd⟩
  | negSucc k => exact ⟨hn, Nat.mul_pos hd (Nat.pow_pos hb)⟩

/-- The quotient of a scaled pair. -/
theorem scaled_div (n d : Nat) {b : Nat} (hb : 0 < b) (power : Int) :
    ((scaled n d b power).1 : ℚ) / (scaled n d b power).2 = (n / d : ℚ) * (b : ℚ) ^ power := by
  have hbase : (b : ℚ) ≠ 0 := by positivity
  cases power with
  | ofNat k =>
      show ((n * b ^ k : Nat) : ℚ) / d = _
      rw [Int.ofNat_eq_natCast, zpow_natCast]
      push_cast
      ring
  | negSucc k =>
      show (n : ℚ) / ((d * b ^ (k + 1) : Nat) : ℚ) = _
      rw [zpow_negSucc]
      push_cast
      rw [div_mul_eq_div_div, div_eq_mul_inv (_ / _ : ℚ)]

theorem two_pow_log2_le {n : Nat} (hn : 0 < n) : (2 : ℚ) ^ (n.log2 : Int) ≤ n := by
  have h := Nat.log2_self_le (Nat.pos_iff_ne_zero.mp hn)
  rw [zpow_natCast]
  exact_mod_cast h

theorem lt_two_pow_log2 (n : Nat) : (n : ℚ) < 2 ^ ((n.log2 : Int) + 1) := by
  have h := @Nat.lt_log2_self n
  have hcast : (n : ℚ) < (2 : ℚ) ^ (n.log2 + 1) := by exact_mod_cast h
  exact_mod_cast hcast

namespace Binary64

theorem cast_leadingBit : (leadingBit : ℚ) = 2 ^ (52 : Int) := by
  norm_num [leadingBit]

/-- A quotient is rounded at an exponent that is guessed and then put right. -/
theorem ofRatio_eq {negative : Bool} {numerator denominator : Nat} (hn : numerator ≠ 0)
    {guess e : Int} (hguess : (numerator.log2 : Int) - (denominator.log2 : Int) - 52 = guess)
    (he : (if (scaled numerator denominator 2 (-guess)).1 <
      (scaled numerator denominator 2 (-guess)).2 * leadingBit then guess - 1 else guess) = e) :
    ofRatio negative numerator denominator = ofRounded negative
      (roundQuotient (scaled numerator denominator 2 (-(max e leastExponent))).1
        (scaled numerator denominator 2 (-(max e leastExponent))).2) (max e leastExponent) := by
  unfold ofRatio
  rw [if_neg hn]
  -- with a variable for the leading bit no step is computed
  obtain ⟨bit, hbit⟩ : ∃ bit, leadingBit = bit := ⟨_, rfl⟩
  rw [hbit] at he ⊢
  generalize scaled numerator denominator 2 = scaling at he ⊢
  generalize (numerator.log2 : Int) - (denominator.log2 : Int) - 52 = other at hguess ⊢
  subst hguess
  dsimp only
  rw [he]

section

variable {numerator denominator : Nat} (hn : 0 < numerator) (hd : 0 < denominator)

include hn hd

/-- A quotient is rounded at the place of its leading bit, or at that of the least number. -/
theorem exists_ofRatio (negative : Bool) : ∃ e : Int,
    (2 : ℚ) ^ (e + 52) ≤ numerator / denominator ∧
      (numerator / denominator : ℚ) < 2 ^ (e + 53) ∧
        ofRatio negative numerator denominator = ofRounded negative
          (roundQuotient (scaled numerator denominator 2 (-(max e leastExponent))).1
            (scaled numerator denominator 2 (-(max e leastExponent))).2) (max e leastExponent) := by
  have hnumerator : (0 : ℚ) < numerator := by exact_mod_cast hn
  have hdenominator : (0 : ℚ) < denominator := by exact_mod_cast hd
  generalize hguess : (numerator.log2 : Int) - (denominator.log2 : Int) - 52 = guess
  have hlow : (2 : ℚ) ^ (guess + 51) ≤ numerator / denominator := by
    rw [le_div_iff₀ hdenominator]
    calc (2 : ℚ) ^ (guess + 51) * denominator
        ≤ 2 ^ (guess + 51) * 2 ^ ((denominator.log2 : Int) + 1) := by
          gcongr
          exact (lt_two_pow_log2 denominator).le
      _ = 2 ^ (numerator.log2 : Int) := by
          rw [← zpow_add₀ two_ne_zero]
          congr 1
          omega
      _ ≤ numerator := two_pow_log2_le hn
  have hhigh : (numerator / denominator : ℚ) < 2 ^ (guess + 53) := by
    rw [div_lt_iff₀ hdenominator]
    calc (numerator : ℚ) < 2 ^ ((numerator.log2 : Int) + 1) := lt_two_pow_log2 numerator
      _ = 2 ^ (guess + 53) * 2 ^ (denominator.log2 : Int) := by
          rw [← zpow_add₀ two_ne_zero]
          congr 1
          omega
      _ ≤ 2 ^ (guess + 53) * denominator := by
          gcongr
          exact two_pow_log2_le hd
  -- the guess is right or one too large
  have hcompare : (scaled numerator denominator 2 (-guess)).1 <
      (scaled numerator denominator 2 (-guess)).2 * leadingBit ↔
        (numerator / denominator : ℚ) < 2 ^ (guess + 52) := by
    have hpos := (scaled_pos hn hd two_pos (-guess)).2
    have hquotient := scaled_div numerator denominator two_pos (-guess)
    have hcast : (0 : ℚ) < (scaled numerator denominator 2 (-guess)).2 := by exact_mod_cast hpos
    rw [← Nat.cast_lt (α := ℚ), Nat.cast_mul, mul_comm, ← div_lt_iff₀ hcast, hquotient,
      Nat.cast_ofNat, cast_leadingBit, zpow_neg, ← div_eq_mul_inv, div_lt_iff₀ (by positivity),
      ← zpow_add₀ two_ne_zero, add_comm]
  by_cases hlarge : (numerator / denominator : ℚ) < 2 ^ (guess + 52)
  · refine ⟨guess - 1, ?_, ?_, ?_⟩
    · rw [show guess - 1 + 52 = guess + 51 by omega]
      exact hlow
    · rw [show guess - 1 + 53 = guess + 52 by omega]
      exact hlarge
    · exact ofRatio_eq (Nat.pos_iff_ne_zero.mp hn) hguess (if_pos (hcompare.mpr hlarge))
  · exact ⟨guess, not_lt.mp hlarge, hhigh, ofRatio_eq (Nat.pos_iff_ne_zero.mp hn) hguess
      (if_neg (hcompare.not.mpr hlarge))⟩

end

/-! ## The least and the greatest numbers -/

/-- The sum of the greatest finite number and half a step: what is not below it becomes infinite. -/
def overflowBound : ℚ := (2 ^ 54 - 1) * 2 ^ (970 : Int)

/-- Half of the least positive number: what is not above it becomes zero. -/
def underflowBound : ℚ := 2 ^ (-1075 : Int)

theorem two_pow_le_overflowBound : (2 : ℚ) ^ (1023 : Int) ≤ overflowBound := by
  calc (2 : ℚ) ^ (1023 : Int) = 2 ^ (53 : Int) * 2 ^ (970 : Int) := by
        rw [← zpow_add₀ two_ne_zero]; rfl
    _ ≤ overflowBound := mul_le_mul_of_nonneg_right (by norm_num) (by positivity)

theorem overflowBound_le_two_pow : overflowBound ≤ 2 ^ (1024 : Int) := by
  calc overflowBound ≤ 2 ^ (54 : Int) * 2 ^ (970 : Int) :=
        mul_le_mul_of_nonneg_right (by norm_num) (by positivity)
    _ = 2 ^ (1024 : Int) := by rw [← zpow_add₀ two_ne_zero]; rfl

theorem underflowBound_lt : underflowBound < overflowBound :=
  (zpow_lt_zpow_right₀ one_lt_two (by decide)).trans_le two_pow_le_overflowBound

theorem overflowBound_le_ten_pow : overflowBound ≤ 10 ^ (320 : Int) := by
  calc overflowBound ≤ 2 ^ (16 * 64 : Int) := overflowBound_le_two_pow
    _ = (2 ^ (16 : Int)) ^ (64 : Int) := zpow_mul _ _ _
    _ ≤ (10 ^ (5 : Int)) ^ (64 : Int) :=
        zpow_le_zpow_left₀ (by norm_num) (by norm_num) (by norm_num)
    _ = 10 ^ (320 : Int) := (zpow_mul _ _ _).symm

theorem ten_pow_le_underflowBound : (10 : ℚ) ^ (-350 : Int) ≤ underflowBound := by
  rw [underflowBound, zpow_neg, zpow_neg]
  refine inv_anti₀ (by positivity) ?_
  calc (2 : ℚ) ^ (1075 : Int) ≤ 2 ^ (16 * 70 : Int) := zpow_le_zpow_right₀ one_le_two (by decide)
    _ = (2 ^ (16 : Int)) ^ (70 : Int) := zpow_mul _ _ _
    _ ≤ (10 ^ (5 : Int)) ^ (70 : Int) :=
        zpow_le_zpow_left₀ (by norm_num) (by norm_num) (by norm_num)
    _ = 10 ^ (350 : Int) := (zpow_mul _ _ _).symm

theorem isFinite_ofRounded {negative : Bool} {m : Nat} {e : Int} :
    (ofRounded negative m e).isFinite = true ↔
      m = 0 ∨ e < greatestExponent ∨ (e = greatestExponent ∧ m ≠ 2 * leadingBit) := by
  unfold ofRounded
  split_ifs with htop hover hzero hover
  · have hm : m ≠ 0 := by rw [htop]; decide
    simp only [isFinite, Bool.false_eq_true, false_iff]
    omega
  · simp only [isFinite, true_iff]
    omega
  · simp [isFinite, zero, hzero]
  · simp only [isFinite, Bool.false_eq_true, false_iff]
    omega
  · simp only [isFinite, true_iff]
    omega

theorem isNegative_ofRounded {negative : Bool} {m : Nat} {e : Int} :
    (ofRounded negative m e).isNegative = true ↔ negative = true ∧ m ≠ 0 := by
  unfold ofRounded
  split_ifs with htop hover hzero hover
  · have hm : m ≠ 0 := by rw [htop]; decide
    simp [isNegative, hm]
  · have hm : m ≠ 0 := by rw [htop]; decide
    simp [isNegative, hm, leadingBit]
  · simp [isNegative, zero, hzero]
  · simp [isNegative, hzero]
  · simp [isNegative, hzero]

section

variable {negative : Bool} {numerator denominator : Nat} (hn : 0 < numerator)
  (hd : 0 < denominator)

include hn hd

/-- A scaled pair compares as the quotient does with a multiple of a power of two. -/
theorem scaled_compare (e : Int) (x y : Nat) :
    (x * (scaled numerator denominator 2 (-e)).2 ≤ y * (scaled numerator denominator 2 (-e)).1 ↔
      (x : ℚ) * 2 ^ e ≤ y * (numerator / denominator)) ∧
    (y * (scaled numerator denominator 2 (-e)).1 ≤ x * (scaled numerator denominator 2 (-e)).2 ↔
      y * (numerator / denominator : ℚ) ≤ x * 2 ^ e) := by
  have hpos := (scaled_pos hn hd two_pos (-e)).2
  have hquotient := scaled_div numerator denominator two_pos (-e)
  generalize (scaled numerator denominator 2 (-e)).1 = a at hquotient ⊢
  generalize (scaled numerator denominator 2 (-e)).2 = b at hpos hquotient ⊢
  have hb : (0 : ℚ) < b := by exact_mod_cast hpos
  have ha : (a : ℚ) * 2 ^ e = (numerator / denominator) * b := by
    rw [div_eq_iff hb.ne'] at hquotient
    rw [hquotient, zpow_neg, Nat.cast_ofNat, mul_assoc, mul_assoc, mul_comm (b : ℚ),
      ← mul_assoc _ _ (b : ℚ), inv_mul_cancel₀ (by positivity), one_mul]
  have he : (0 : ℚ) < 2 ^ e := by positivity
  have hleft : (x : ℚ) * b * 2 ^ e = x * 2 ^ e * b := by ring
  have hright : (y : ℚ) * a * 2 ^ e = y * (numerator / denominator) * b := by
    rw [mul_assoc, ha, mul_assoc]
  constructor
  · rw [← Nat.cast_le (α := ℚ), Nat.cast_mul, Nat.cast_mul, ← mul_le_mul_iff_left₀ he, hleft,
      hright, mul_le_mul_iff_left₀ hb]
  · rw [← Nat.cast_le (α := ℚ), Nat.cast_mul, Nat.cast_mul, ← mul_le_mul_iff_left₀ he, hleft,
      hright, mul_le_mul_iff_left₀ hb]

/-- The mantissa of a quotient at an exponent. -/
theorem mantissa_bounds (e : Int) {m : Nat} (hm : m = roundQuotient
    (scaled numerator denominator 2 (-e)).1 (scaled numerator denominator 2 (-e)).2) :
    (∀ k : Nat, (k : ℚ) * 2 ^ e ≤ numerator / denominator → k ≤ m) ∧
      (∀ k : Nat, (numerator / denominator : ℚ) ≤ k * 2 ^ e → m ≤ k) ∧
      (2 * leadingBit ≤ m ↔ (2 ^ 54 - 1 : ℚ) * 2 ^ (e - 1) ≤ numerator / denominator) ∧
      (m = 0 ↔ (numerator / denominator : ℚ) ≤ 2 ^ (e - 1)) := by
  have hpos := (scaled_pos hn hd two_pos (-e)).2
  have hcompare := scaled_compare hn hd e
  have hhalf : (2 : ℚ) ^ e = 2 ^ (e - 1) * 2 := by
    rw [← zpow_add_one₀ two_ne_zero, sub_add_cancel]
  subst hm
  refine ⟨fun k hk => le_roundQuotient hpos ?_, fun k hk => roundQuotient_le hpos ?_, ?_, ?_⟩
  · have h := (hcompare k 1).1.mpr (by rwa [Nat.cast_one, one_mul])
    rwa [Nat.one_mul] at h
  · have h := (hcompare k 1).2.mpr (by rwa [Nat.cast_one, one_mul])
    rwa [Nat.one_mul] at h
  · rw [even_le_roundQuotient_iff hpos (by decide), (hcompare _ 2).1, hhalf]
    rw [show ((4 * leadingBit - 1 : Nat) : ℚ) = 2 ^ 54 - 1 by norm_num [leadingBit]]
    rw [← mul_assoc, mul_comm (2 : Nat).cast, Nat.cast_ofNat, mul_le_mul_iff_left₀ two_pos]
  · have h := (hcompare 1 2).2
    rw [Nat.one_mul, hhalf, Nat.cast_one, one_mul, mul_comm (2 : Nat).cast, Nat.cast_ofNat,
      mul_le_mul_iff_left₀ two_pos] at h
    rw [roundQuotient_eq_zero_iff hpos, h]

/-- A quotient is rounded to an infinite number from the bound on. -/
theorem isFinite_ofRatio : (ofRatio negative numerator denominator).isFinite = true ↔
    (numerator / denominator : ℚ) < overflowBound := by
  obtain ⟨e, hlow, hhigh, hround⟩ := exists_ofRatio hn hd negative
  obtain ⟨hge, hle, htop, -⟩ := mantissa_bounds hn hd (max e leastExponent) rfl
  rw [hround, isFinite_ofRounded]
  generalize roundQuotient _ _ = m at hge hle htop ⊢
  have hgreatest : greatestExponent = 971 := rfl
  have hleast : leastExponent = -1074 := rfl
  -- a number that is not too small has all places
  have hnormal : leastExponent ≤ e → leadingBit ≤ m ∧ m ≤ 2 * leadingBit := by
    intro hbig
    rw [max_eq_left hbig] at hge hle
    refine ⟨hge _ ?_, hle _ ?_⟩
    · rw [cast_leadingBit, ← zpow_add₀ two_ne_zero, add_comm]
      exact hlow
    · rw [Nat.cast_mul, cast_leadingBit, Nat.cast_ofNat, ← zpow_one_add₀ two_ne_zero,
        ← zpow_add₀ two_ne_zero, add_comm]
      exact hhigh.le
  have hbit : 0 < leadingBit := by decide
  rcases lt_trichotomy (max e leastExponent) greatestExponent with hlt | heq | hgt
  · refine iff_of_true (Or.inr (Or.inl hlt)) (hhigh.trans_le ?_)
    exact (zpow_le_zpow_right₀ one_le_two (by omega)).trans two_pow_le_overflowBound
  · obtain rfl : e = 971 := by omega
    obtain ⟨hfull, hover⟩ := hnormal (by omega)
    rw [heq, hgreatest, show (971 : Int) - 1 = 970 from rfl] at htop
    refine Iff.trans ?_ ((not_congr htop).trans not_le)
    omega
  · have hbig : leastExponent ≤ e := by omega
    obtain ⟨hfull, -⟩ := hnormal hbig
    refine iff_of_false (by omega) (not_lt.mpr (le_trans ?_ hlow))
    exact overflowBound_le_two_pow.trans (zpow_le_zpow_right₀ one_le_two (by omega))

/-- A quotient with a minus is below zero unless it is rounded to zero. -/
theorem isNegative_ofRatio : (ofRatio negative numerator denominator).isNegative = true ↔
    negative = true ∧ underflowBound < (numerator / denominator : ℚ) := by
  obtain ⟨e, hlow, hhigh, hround⟩ := exists_ofRatio hn hd negative
  obtain ⟨hge, -, -, hzero⟩ := mantissa_bounds hn hd (max e leastExponent) rfl
  rw [hround, isNegative_ofRounded]
  generalize roundQuotient _ _ = m at hge hzero ⊢
  have hleast : leastExponent = -1074 := rfl
  refine and_congr_right fun _ => ?_
  rcases le_or_gt leastExponent e with hbig | hsmall
  · rw [max_eq_left hbig] at hge
    have hfull : leadingBit ≤ m := by
      apply hge
      rw [cast_leadingBit, ← zpow_add₀ two_ne_zero, add_comm]
      exact hlow
    have hbit : 0 < leadingBit := by decide
    refine iff_of_true (by omega) (lt_of_lt_of_le ?_ hlow)
    exact zpow_lt_zpow_right₀ one_lt_two (by omega)
  · rw [max_eq_right hsmall.le, hleast] at hzero
    rw [ne_eq, hzero, not_le, underflowBound]
    norm_num

end

/-! ## Decimal numbers -/

/-- The number of digits of a natural tells its size. -/
theorem toDigits_bounds {digits : Nat} (hdigits : 0 < digits) :
    (10 : ℚ) ^ (((Nat.toDigits 10 digits).length : Int) - 1) ≤ digits ∧
      (digits : ℚ) < 10 ^ ((Nat.toDigits 10 digits).length : Int) := by
  have hlength : 0 < (Nat.toDigits 10 digits).length := Nat.length_toDigits_pos
  constructor
  · rcases Nat.lt_or_ge 1 (Nat.toDigits 10 digits).length with hmany | hone
    · have hbound := (Nat.length_toDigits_le_iff (b := 10) (n := digits) (by decide)
        (Nat.sub_pos_of_lt hmany)).not.mp (by omega)
      rw [← Nat.cast_one, ← Nat.cast_sub hlength, zpow_natCast]
      exact_mod_cast not_lt.mp hbound
    · rw [show ((Nat.toDigits 10 digits).length : Int) - 1 = 0 by omega, zpow_zero]
      exact_mod_cast hdigits
  · have hbound :=
      (Nat.length_toDigits_le_iff (b := 10) (n := digits) (by decide) hlength).mp le_rfl
    rw [zpow_natCast]
    exact_mod_cast hbound

/-- A decimal number is rounded as a quotient is, unless its size alone decides. -/
theorem ofDecimal_cases (negative : Bool) {digits : Nat} (hdigits : 0 < digits) (power : Int) :
    (ofDecimal negative digits power = .infinite negative ∧
        (10 : ℚ) ^ (320 : Int) ≤ digits * 10 ^ power) ∨
      (ofDecimal negative digits power = zero negative ∧
        (digits * 10 ^ power : ℚ) ≤ 10 ^ (-350 : Int)) ∨
      ∃ numerator denominator : Nat, 0 < numerator ∧ 0 < denominator ∧
        (digits * 10 ^ power : ℚ) = (numerator : ℚ) / (denominator : ℚ) ∧
        ofDecimal negative digits power = ofRatio negative numerator denominator := by
  obtain ⟨hlow, hhigh⟩ := toDigits_bounds hdigits
  have hpower : (0 : ℚ) < 10 ^ power := by positivity
  unfold ofDecimal
  rw [if_neg hdigits.ne']
  dsimp only
  generalize ((Nat.toDigits 10 digits).length : Int) = length at hlow hhigh ⊢
  split_ifs with hlarge hsmall
  · refine Or.inl ⟨rfl, ?_⟩
    calc (10 : ℚ) ^ (320 : Int) ≤ 10 ^ (length - 1 + power) :=
          zpow_le_zpow_right₀ (by norm_num) (by omega)
      _ = 10 ^ (length - 1) * 10 ^ power := zpow_add₀ (by norm_num) _ _
      _ ≤ digits * 10 ^ power := mul_le_mul_of_nonneg_right hlow hpower.le
  · refine Or.inr (Or.inl ⟨rfl, ?_⟩)
    calc (digits * 10 ^ power : ℚ) ≤ 10 ^ length * 10 ^ power :=
          mul_le_mul_of_nonneg_right hhigh.le hpower.le
      _ = 10 ^ (length + power) := (zpow_add₀ (by norm_num) _ _).symm
      _ ≤ 10 ^ (-350 : Int) := zpow_le_zpow_right₀ (by norm_num) (by omega)
  · have hpos := scaled_pos hdigits one_pos (show 0 < 10 by decide) power
    refine Or.inr (Or.inr ⟨_, _, hpos.1, hpos.2, ?_, rfl⟩)
    rw [scaled_div _ _ (by decide), Nat.cast_one, div_one, Nat.cast_ofNat]

/-- A decimal number is rounded to an infinite one from the bound on. -/
theorem isFinite_ofDecimal {negative : Bool} {digits : Nat} {power : Int} :
    (ofDecimal negative digits power).isFinite = true ↔
      (digits * 10 ^ power : ℚ) < overflowBound := by
  rcases Nat.eq_zero_or_pos digits with rfl | hdigits
  · refine iff_of_true rfl ?_
    norm_num [overflowBound]
  rcases ofDecimal_cases negative hdigits power with
    ⟨heq, hlarge⟩ | ⟨heq, hsmall⟩ | ⟨numerator, denominator, hn, hd, hvalue, heq⟩
  · rw [heq]
    exact iff_of_false (by simp [isFinite]) (not_lt.mpr (overflowBound_le_ten_pow.trans hlarge))
  · rw [heq]
    exact iff_of_true rfl ((hsmall.trans ten_pow_le_underflowBound).trans_lt underflowBound_lt)
  · rw [heq, hvalue]
    exact isFinite_ofRatio hn hd

/-- A decimal number with a minus is below zero unless it is rounded to zero. -/
theorem isNegative_ofDecimal {negative : Bool} {digits : Nat} {power : Int} :
    (ofDecimal negative digits power).isNegative = true ↔
      negative = true ∧ underflowBound < (digits * 10 ^ power : ℚ) := by
  rcases Nat.eq_zero_or_pos digits with rfl | hdigits
  · refine iff_of_false (by simp [ofDecimal, isNegative, zero]) ?_
    norm_num [underflowBound]
  rcases ofDecimal_cases negative hdigits power with
    ⟨heq, hlarge⟩ | ⟨heq, hsmall⟩ | ⟨numerator, denominator, hn, hd, hvalue, heq⟩
  · rw [heq]
    exact (and_iff_left (underflowBound_lt.trans_le (overflowBound_le_ten_pow.trans hlarge))).symm
  · rw [heq]
    refine iff_of_false (by simp [isNegative, zero]) fun h => ?_
    exact absurd (hsmall.trans ten_pow_le_underflowBound) (not_le.mpr h.2)
  · rw [heq, hvalue]
    exact isNegative_ofRatio hn hd

theorem ofRounded_ne_nan (negative : Bool) (m : Nat) (e : Int) : ofRounded negative m e ≠ .nan := by
  unfold ofRounded zero
  split_ifs <;> simp

theorem ofDecimal_ne_nan (negative : Bool) (digits : Nat) (power : Int) :
    ofDecimal negative digits power ≠ .nan := by
  rcases Nat.eq_zero_or_pos digits with rfl | hdigits
  · simp [ofDecimal, zero]
  rcases ofDecimal_cases negative hdigits power with
    ⟨heq, -⟩ | ⟨heq, -⟩ | ⟨numerator, denominator, hn, hd, -, heq⟩
  · simp [heq]
  · simp [heq, zero]
  · obtain ⟨e, -, -, hround⟩ := exists_ofRatio hn hd negative
    rw [heq, hround]
    exact ofRounded_ne_nan _ _ _

end Binary64

end BuildRunner.Number
