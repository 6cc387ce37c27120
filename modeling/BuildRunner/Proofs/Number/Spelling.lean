import BuildRunner.Number.Reading
import BuildRunner.Proofs.Number.Rounding
import Mathlib.Data.Nat.Digits.Defs

/-!
# Number literals

A grammar says which texts denote a number, and which number that is.  It is the same for the
digits of any script, with underscores among them, and for plain digits: a literal of the one kind
spells out a literal of the other.
-/

namespace BuildRunner.Number

/-! ## The grammar -/

/-- A blank that may stand before or behind a number.  In ASCII there are fewer of them than
blanks. -/
def isMargin (c : Char) : Bool :=
  if c.toNat < 0x7f then isPlainBlank c else Text.isBlank c

/-- Digits, each of which may have an underscore before it, with their values. -/
inductive FurtherDigits : List Char → List Nat → Prop
  | nil : FurtherDigits [] []
  | digit {c n s ns} :
      digitValue? c = some n → FurtherDigits s ns → FurtherDigits (c :: s) (n :: ns)
  | grouped {c n s ns} :
      digitValue? c = some n → FurtherDigits s ns → FurtherDigits ('_' :: c :: s) (n :: ns)

/-- One digit or more of any script, with single underscores between some of them. -/
inductive GroupedDigits : List Char → List Nat → Prop
  | intro {c n s ns} :
      digitValue? c = some n → FurtherDigits s ns → GroupedDigits (c :: s) (n :: ns)

/-- The natural that digits denote, the first of them being the greatest. -/
def decimalOf (digits : List Nat) : Nat := Nat.ofDigits 10 digits.reverse

/-- An optional sign, and whether it is a minus. -/
inductive Sign : List Char → Bool → Prop
  | absent : Sign [] false
  | plus : Sign ['+'] false
  | minus : Sign ['-'] true

/-- What a literal denotes. -/
inductive Quantity
  | nan
  | infinite (negative : Bool)
  /-- The number `digits * 10 ^ power` with its sign. -/
  | decimal (negative : Bool) (digits : Nat) (power : Int)

section

variable (Digits : List Char → List Nat → Prop)

/-- Digits that may be missing. -/
inductive Optional : List Char → List Nat → Prop
  | absent : Optional [] []
  | present {s ns} : Digits s ns → Optional s ns

/-- Digits with at most one point among them: the values of those before and behind the point. -/
inductive Mantissa : List Char → List Nat → List Nat → Prop
  | whole {s ns} : Digits s ns → Mantissa s ns []
  | pointed {s t ns ms} :
      Optional Digits s ns → Optional Digits t ms → ns ++ ms ≠ [] → Mantissa (s ++ '.' :: t) ns ms

/-- An optional power of ten. -/
inductive Exponent : List Char → Int → Prop
  | absent : Exponent [] 0
  | present {mark sign negative s ns} :
      mark = 'e' ∨ mark = 'E' → Sign sign negative → Digits s ns →
        Exponent (mark :: (sign ++ s)) (if negative then -(decimalOf ns : Int) else decimalOf ns)

/-- A number without blanks around it. -/
inductive Literal : List Char → Quantity → Prop
  | nan {sign negative word} :
      Sign sign negative → word.map Char.toLower = "nan".toList → Literal (sign ++ word) .nan
  | infinite {sign negative word} :
      Sign sign negative →
        word.map Char.toLower = "inf".toList ∨ word.map Char.toLower = "infinity".toList →
          Literal (sign ++ word) (.infinite negative)
  | decimal {sign negative s ns ms e power} :
      Sign sign negative → Mantissa Digits s ns ms → Exponent Digits e power →
        Literal (sign ++ (s ++ e))
          (.decimal negative (decimalOf (ns ++ ms)) (power - ms.length))

end

/-- A text denotes a number, with blanks around it. -/
def Denotes (text : List Char) (quantity : Quantity) : Prop :=
  ∃ front core back, text = front ++ core ++ back ∧ front.all isMargin = true ∧
    back.all isMargin = true ∧ Literal GroupedDigits core quantity

namespace Quantity

/-- The number that is nearest to a quantity. -/
def rounded : Quantity → Binary64
  | nan => .nan
  | infinite negative => .infinite negative
  | decimal negative digits power => Binary64.ofDecimal negative digits power

/-- A quantity that stays finite. -/
def IsFinite : Quantity → Prop
  | decimal _ digits power => (digits * 10 ^ power : ℚ) < Binary64.overflowBound
  | _ => False

/-- A quantity that stays below zero. -/
def IsNegative : Quantity → Prop
  | nan => False
  | infinite negative => negative = true
  | decimal negative digits power =>
      negative = true ∧ Binary64.underflowBound < (digits * 10 ^ power : ℚ)

theorem isFinite_rounded (quantity : Quantity) :
    quantity.rounded.isFinite = true ↔ quantity.IsFinite := by
  cases quantity with
  | nan => simp [rounded, IsFinite, Binary64.isFinite]
  | infinite negative => simp [rounded, IsFinite, Binary64.isFinite]
  | decimal negative digits power => exact Binary64.isFinite_ofDecimal

theorem isNegative_rounded (quantity : Quantity) :
    quantity.rounded.isNegative = true ↔ quantity.IsNegative := by
  cases quantity with
  | nan => simp [rounded, IsNegative, Binary64.isNegative]
  | infinite negative => simp [rounded, IsNegative, Binary64.isNegative]
  | decimal negative digits power => exact Binary64.isNegative_ofDecimal

end Quantity

/-! ## Characters -/

/-- The plain form of a character. -/
def plainCharacter? (c : Char) : Option Char :=
  if c.toNat < 0x7f then some c
  else if Text.isBlank c then some ' '
  else (digitValue? c).map fun n => Char.ofNat (n + '0'.toNat)

theorem plain?_eq (s : List Char) : plain? s = s.mapM plainCharacter? := rfl

/-- A character that stands for itself: plain, and neither a digit nor a blank nor an underscore. -/
def IsMark (c : Char) : Prop :=
  c.toNat < 0x7f ∧ c.isDigit = false ∧ c ≠ '_' ∧ isPlainBlank c = false

instance : DecidablePred IsMark := fun _ => inferInstanceAs (Decidable (_ ∧ _))

/-- A check of all the characters of a text. -/
theorem forall_mem_of_all {p : Char → Prop} [DecidablePred p] {s : List Char}
    (h : s.all (fun c => decide (p c)) = true) : ∀ c ∈ s, p c := fun c hc =>
  of_decide_eq_true (List.all_eq_true.mp h c hc)

theorem isDigit_iff {c : Char} :
    c.isDigit = true ↔ '0'.toNat ≤ c.toNat ∧ c.toNat ≤ '0'.toNat + 9 := by
  simp only [Char.isDigit, Bool.and_eq_true, decide_eq_true_eq]
  exact Iff.rfl

/-- The zeros of the scripts are far from one another. -/
theorem zeros_far {a b : Nat} (ha : a ∈ zeros) (hb : b ∈ zeros) (hne : a ≠ b) :
    a + 9 < b ∨ b + 9 < a := by
  have hsorted : zeros.Pairwise fun a b => a + 9 < b := by decide
  have hfar : zeros.Pairwise fun a b => a + 9 < b ∨ b + 9 < a := hsorted.imp Or.inl
  have : Std.Symm fun a b : Nat => a + 9 < b ∨ b + 9 < a := ⟨fun _ _ => Or.symm⟩
  exact hfar.forall ha hb hne

/-- The zeros of the scripts are far from other plain characters and from blanks. -/
theorem zeros_apart : ∀ first ∈ zeros, first = '0'.toNat ∨ 0xa0 < first ∧
    (first + 9 < 0x1680 ∨ 0x1680 < first) ∧ (first + 9 < 0x2000 ∨ 0x3000 < first) := by
  decide

theorem digitValue?_eq_some_iff {c : Char} {n : Nat} :
    digitValue? c = some n ↔ ∃ first ∈ zeros, n ≤ 9 ∧ c.toNat = first + n := by
  constructor
  · intro h
    obtain ⟨first, hfirst, rfl⟩ := Option.map_eq_some_iff.mp h
    have hrange := List.find?_some hfirst
    simp only [Bool.and_eq_true, decide_eq_true_eq] at hrange
    exact ⟨first, List.mem_of_find?_eq_some hfirst, by omega, by omega⟩
  · rintro ⟨first, hfirst, hn, hc⟩
    unfold digitValue?
    cases hfind : zeros.find? fun first => first ≤ c.toNat && c.toNat ≤ first + 9 with
    | none =>
        have hmiss := List.find?_eq_none.mp hfind first hfirst
        simp only [Bool.and_eq_true, decide_eq_true_eq] at hmiss
        omega
    | some other =>
        have hrange := List.find?_some hfind
        simp only [Bool.and_eq_true, decide_eq_true_eq] at hrange
        have hsame : other = first := by
          by_contra hne
          have hfar := zeros_far (List.mem_of_find?_eq_some hfind) hfirst hne
          omega
        subst hsame
        rw [Option.map_some, hc, Nat.add_sub_cancel_left]

theorem isBlank_digit {c : Char} {n : Nat} (h : digitValue? c = some n) :
    Text.isBlank c = false := by
  obtain ⟨first, hfirst, hn, hc⟩ := digitValue?_eq_some_iff.mp h
  have hzero : '0'.toNat = 0x30 := rfl
  have hapart := zeros_apart first hfirst
  unfold Text.isBlank
  simp only [Bool.or_eq_false_iff, Bool.and_eq_false_iff, decide_eq_false_iff_not,
    beq_eq_false_iff_ne]
  omega

theorem isPlainBlank_digit {c : Char} (h : c.isDigit = true) : isPlainBlank c = false := by
  have hzero : '0'.toNat = 0x30 := rfl
  rw [isDigit_iff] at h
  unfold isPlainBlank
  simp only [Bool.or_eq_false_iff, Bool.and_eq_false_iff, decide_eq_false_iff_not,
    beq_eq_false_iff_ne, ne_eq]
  refine ⟨?_, by omega⟩
  rintro rfl
  exact absurd h (by decide)

theorem toNat_ofNat_digit : ∀ n ≤ 9, (Char.ofNat (n + '0'.toNat)).toNat = n + '0'.toNat := by
  decide

theorem plainCharacter?_cases {c p : Char} (h : plainCharacter? c = some p) :
    (c.toNat < 0x7f ∧ p = c) ∨ (0x7f ≤ c.toNat ∧ Text.isBlank c = true ∧ p = ' ') ∨
      (0x7f ≤ c.toNat ∧ p.isDigit = true ∧ digitValue? c = some (p.toNat - '0'.toNat)) := by
  unfold plainCharacter? at h
  split_ifs at h with hplain hblank
  · exact Or.inl ⟨hplain, (Option.some.inj h).symm⟩
  · exact Or.inr (Or.inl ⟨not_lt.mp hplain, hblank, (Option.some.inj h).symm⟩)
  · obtain ⟨n, hn, rfl⟩ := Option.map_eq_some_iff.mp h
    obtain ⟨-, -, hsmall, -⟩ := digitValue?_eq_some_iff.mp hn
    refine Or.inr (Or.inr ⟨not_lt.mp hplain, isDigit_iff.mpr ?_, ?_⟩)
    · rw [toNat_ofNat_digit n hsmall]
      omega
    · rw [toNat_ofNat_digit n hsmall, hn, Nat.add_sub_cancel]

/-- A digit is a character whose plain form is one. -/
theorem digitValue?_iff_plain {c : Char} {n : Nat} :
    digitValue? c = some n ↔
      ∃ p, plainCharacter? c = some p ∧ p.isDigit = true ∧ p.toNat - '0'.toNat = n := by
  have hzero : '0'.toNat = 0x30 := rfl
  constructor
  · intro h
    obtain ⟨first, hfirst, hn, hc⟩ := digitValue?_eq_some_iff.mp h
    have hapart := zeros_apart first hfirst
    unfold plainCharacter?
    split_ifs with hplain hblank
    · refine ⟨c, rfl, isDigit_iff.mpr ?_, ?_⟩ <;> omega
    · exact absurd hblank (by rw [isBlank_digit h]; decide)
    · rw [h]
      refine ⟨_, rfl, isDigit_iff.mpr ?_, ?_⟩ <;> rw [toNat_ofNat_digit n hn] <;> omega
  · rintro ⟨p, hp, hdigit, rfl⟩
    obtain ⟨hplain, rfl⟩ | ⟨-, -, rfl⟩ | ⟨-, -, hvalue⟩ := plainCharacter?_cases hp
    · rw [isDigit_iff] at hdigit
      exact digitValue?_eq_some_iff.mpr ⟨'0'.toNat, by decide, by omega, by omega⟩
    · exact absurd hdigit (by decide)
    · exact hvalue

/-- Whatever is neither a digit nor a blank is the plain form of itself alone. -/
theorem plainCharacter?_eq_iff {c p : Char} (hplain : p.toNat < 0x7f) (hdigit : p.isDigit = false)
    (hblank : p ≠ ' ') : plainCharacter? c = some p ↔ c = p := by
  constructor
  · intro h
    obtain ⟨-, rfl⟩ | ⟨-, -, rfl⟩ | ⟨-, hother, -⟩ := plainCharacter?_cases h
    · rfl
    · exact absurd rfl hblank
    · exact absurd hother (by rw [hdigit]; decide)
  · rintro rfl
    exact if_pos hplain

theorem isMargin_iff_plain {c : Char} :
    isMargin c = true ↔ ∃ p, plainCharacter? c = some p ∧ isPlainBlank p = true := by
  unfold isMargin
  constructor
  · intro h
    split_ifs at h with hplain
    · exact ⟨c, if_pos hplain, h⟩
    · exact ⟨' ', by rw [plainCharacter?, if_neg hplain, if_pos h], by decide⟩
  · rintro ⟨p, hp, hblank⟩
    obtain ⟨hplain, rfl⟩ | ⟨hlarge, hc, rfl⟩ | ⟨hlarge, hdigit, -⟩ := plainCharacter?_cases hp
    · rw [if_pos hplain]
      exact hblank
    · rw [if_neg (not_lt.mpr hlarge)]
      exact hc
    · exact absurd hblank (by rw [isPlainBlank_digit hdigit]; decide)

/-! ## Texts with their plain forms -/

/-- A text has a plain form once its underscores are left out.  The flag says whether a digit stands
before the text. -/
def Spells (flag : Bool) (text plain : List Char) : Prop :=
  ∃ s, plain? text = some s ∧ ungroup? flag s = some plain

theorem plain?_cons {c : Char} {text : List Char} {s : List Char} :
    plain? (c :: text) = some s ↔
      ∃ p r, plainCharacter? c = some p ∧ plain? text = some r ∧ s = p :: r := by
  rw [plain?_eq, plain?_eq, List.mapM_cons]
  cases plainCharacter? c with
  | none => simp
  | some p =>
      cases text.mapM plainCharacter? with
      | none => simp
      | some r => simp [eq_comm]

theorem ne_underscore_of_isDigit {c : Char} (h : c.isDigit = true) : c ≠ '_' := by
  rintro rfl
  exact absurd h (by decide)

theorem ungroup?_cons {flag : Bool} {c : Char} {r : List Char} (hc : c ≠ '_') :
    ungroup? flag (c :: r) = (ungroup? c.isDigit r).map (c :: ·) := by
  rw [ungroup?, if_neg hc]
  exact fun _ _ h => absurd h hc

theorem ungroup?_eq_nil_iff {flag : Bool} {s : List Char} : ungroup? flag s = some [] ↔ s = [] := by
  fun_cases ungroup? flag s with
  | case1 => simp
  | case2 c r hdigit => simp
  | case3 c r hdigit => simp
  | case4 r hr => simp
  | case5 c r hc hunderscore => simp

/-- A character of the ungrouped text, and the underscore that may stand before it. -/
theorem ungroup?_eq_cons_iff {flag : Bool} {c : Char} {s u : List Char} :
    ungroup? flag s = some (c :: u) ↔
      c ≠ '_' ∧ ∃ r, ungroup? c.isDigit r = some u ∧
        (s = c :: r ∨ (flag = true ∧ c.isDigit = true ∧ s = '_' :: c :: r)) := by
  constructor
  · fun_cases ungroup? flag s with
    | case1 => simp
    | case2 a r hdigit =>
        intro h
        obtain ⟨_, hr, heq⟩ := Option.map_eq_some_iff.mp h
        obtain ⟨rfl, rfl⟩ := List.cons.inj heq
        rw [Bool.and_eq_true] at hdigit
        refine ⟨ne_underscore_of_isDigit hdigit.2, r, ?_, Or.inr ⟨hdigit.1, hdigit.2, rfl⟩⟩
        rw [hdigit.2]
        exact hr
    | case3 a r hdigit => simp
    | case4 r hr => simp
    | case5 a r ha hunderscore =>
        intro h
        obtain ⟨_, hr, heq⟩ := Option.map_eq_some_iff.mp h
        obtain ⟨rfl, rfl⟩ := List.cons.inj heq
        exact ⟨hunderscore, r, hr, Or.inl rfl⟩
  · rintro ⟨hc, r, hr, rfl | ⟨rfl, hdigit, rfl⟩⟩
    · rw [ungroup?_cons hc, hr]
      rfl
    · rw [hdigit] at hr
      rw [ungroup?, hdigit, hr]
      rfl

theorem spells_nil_iff {flag : Bool} {text : List Char} : Spells flag text [] ↔ text = [] := by
  constructor
  · rintro ⟨s, hs, hplain⟩
    obtain rfl := ungroup?_eq_nil_iff.mp hplain
    cases text with
    | nil => rfl
    | cons c text =>
        obtain ⟨p, r, -, -, h⟩ := plain?_cons.mp hs
        cases h
  · rintro rfl
    exact ⟨[], rfl, rfl⟩

/-- A character of the plain form, and the underscore that may stand before it. -/
theorem spells_cons_iff {flag : Bool} {c : Char} {text u : List Char} :
    Spells flag text (c :: u) ↔
      c ≠ '_' ∧ ∃ a r, plainCharacter? a = some c ∧ Spells c.isDigit r u ∧
        (text = a :: r ∨ (flag = true ∧ c.isDigit = true ∧ text = '_' :: a :: r)) := by
  have hunderscore : ∀ a, plainCharacter? a = some '_' ↔ a = '_' :=
    fun a => plainCharacter?_eq_iff (by decide) (by decide) (by decide)
  constructor
  · rintro ⟨s, hs, hplain⟩
    obtain ⟨hc, r, hr, rfl | ⟨hflag, hdigit, rfl⟩⟩ := ungroup?_eq_cons_iff.mp hplain
    · cases text with
      | nil => cases hs
      | cons a text =>
          obtain ⟨_, _, ha, hrest, heq⟩ := plain?_cons.mp hs
          obtain ⟨rfl, rfl⟩ := List.cons.inj heq
          exact ⟨hc, a, text, ha, ⟨r, hrest, hr⟩, Or.inl rfl⟩
    · cases text with
      | nil => cases hs
      | cons b text =>
          obtain ⟨_, _, hb, hrest, heq⟩ := plain?_cons.mp hs
          obtain ⟨rfl, rfl⟩ := List.cons.inj heq
          obtain rfl := (hunderscore b).mp hb
          cases text with
          | nil => cases hrest
          | cons a text =>
              obtain ⟨_, _, ha, htext, heq⟩ := plain?_cons.mp hrest
              obtain ⟨rfl, rfl⟩ := List.cons.inj heq
              exact ⟨hc, a, text, ha, ⟨r, htext, hr⟩, Or.inr ⟨hflag, hdigit, rfl⟩⟩
  · rintro ⟨hc, a, r, ha, ⟨s, hs, hplain⟩, rfl | ⟨rfl, hdigit, rfl⟩⟩
    · exact ⟨c :: s, plain?_cons.mpr ⟨c, s, ha, hs, rfl⟩,
        ungroup?_eq_cons_iff.mpr ⟨hc, s, hplain, Or.inl rfl⟩⟩
    · have hrest : plain? (a :: r) = some (c :: s) := plain?_cons.mpr ⟨c, s, ha, hs, rfl⟩
      exact ⟨'_' :: c :: s, plain?_cons.mpr ⟨'_', c :: s, (hunderscore _).mpr rfl, hrest, rfl⟩,
        ungroup?_eq_cons_iff.mpr ⟨hc, s, hplain, Or.inr ⟨rfl, hdigit, rfl⟩⟩⟩

/-- A mark stands for itself. -/
theorem spells_mark_iff {flag : Bool} {c : Char} {text u : List Char} (hc : IsMark c) :
    Spells flag text (c :: u) ↔ ∃ r, text = c :: r ∧ Spells false r u := by
  obtain ⟨hplain, hdigit, hunderscore, hblank⟩ := hc
  have hspace : c ≠ ' ' := by
    rintro rfl
    exact absurd hblank (by decide)
  rw [spells_cons_iff, hdigit]
  simp only [plainCharacter?_eq_iff hplain hdigit hspace, Bool.false_eq_true, false_and, and_false,
    or_false]
  constructor
  · rintro ⟨-, _, r, rfl, hr, rfl⟩
    exact ⟨r, rfl, hr⟩
  · rintro ⟨r, rfl, hr⟩
    exact ⟨hunderscore, c, r, rfl, hr, rfl⟩

theorem spells_marks_iff {word text u : List Char} (hword : ∀ c ∈ word, IsMark c) :
    Spells false text (word ++ u) ↔ ∃ r, text = word ++ r ∧ Spells false r u := by
  induction word generalizing text with
  | nil => simp
  | cons c word ih =>
      rw [List.cons_append, spells_mark_iff (hword c List.mem_cons_self)]
      simp only [ih fun c hc => hword c (List.mem_cons_of_mem _ hc)]
      constructor
      · rintro ⟨_, rfl, r, rfl, hr⟩
        exact ⟨r, rfl, hr⟩
      · rintro ⟨r, rfl, hr⟩
        exact ⟨word ++ r, rfl, r, rfl, hr⟩

/-! ### Digits in plain form -/

/-- The values of plain digits. -/
def plainValues (s : List Char) : List Nat := s.map fun c => c.toNat - '0'.toNat

/-- One plain digit or more, with their values. -/
def PlainDigits (s : List Char) (ns : List Nat) : Prop :=
  s ≠ [] ∧ s.all Char.isDigit = true ∧ ns = plainValues s

/-- Digits with underscores before some of them. -/
theorem spells_furtherDigits_iff {text u : List Char} {ns : List Nat} :
    (∃ w, w.all Char.isDigit = true ∧ ns = plainValues w ∧
        Spells true text (w ++ u)) ↔
      ∃ s r, text = s ++ r ∧ FurtherDigits s ns ∧ Spells true r u := by
  constructor
  · rintro ⟨w, hw, rfl, hspells⟩
    induction w generalizing text with
    | nil => exact ⟨[], text, rfl, .nil, hspells⟩
    | cons c w ih =>
        rw [List.all_cons, Bool.and_eq_true] at hw
        obtain ⟨-, a, r, ha, hr, htext⟩ := spells_cons_iff.mp hspells
        rw [hw.1] at hr
        obtain ⟨s, r, rfl, hs, hrest⟩ := ih hw.2 hr
        have hvalue := digitValue?_iff_plain.mpr ⟨c, ha, hw.1, rfl⟩
        obtain rfl | ⟨-, -, rfl⟩ := htext
        · exact ⟨a :: s, r, rfl, .digit hvalue hs, hrest⟩
        · exact ⟨'_' :: a :: s, r, rfl, .grouped hvalue hs, hrest⟩
  · rintro ⟨s, r, rfl, hs, hrest⟩
    induction hs with
    | nil => exact ⟨[], rfl, rfl, hrest⟩
    | digit hvalue hs ih =>
        obtain ⟨w, hw, rfl, hspells⟩ := ih
        obtain ⟨p, hp, hdigit, rfl⟩ := digitValue?_iff_plain.mp hvalue
        refine ⟨p :: w, by rw [List.all_cons, hdigit, hw]; rfl, rfl, ?_⟩
        refine spells_cons_iff.mpr ⟨ne_underscore_of_isDigit hdigit, _, _, hp, ?_, Or.inl rfl⟩
        rw [hdigit]
        exact hspells
    | grouped hvalue hs ih =>
        obtain ⟨w, hw, rfl, hspells⟩ := ih
        obtain ⟨p, hp, hdigit, rfl⟩ := digitValue?_iff_plain.mp hvalue
        refine ⟨p :: w, by rw [List.all_cons, hdigit, hw]; rfl, rfl, ?_⟩
        refine spells_cons_iff.mpr
          ⟨ne_underscore_of_isDigit hdigit, _, _, hp, ?_, Or.inr ⟨rfl, hdigit, rfl⟩⟩
        rw [hdigit]
        exact hspells

/-- No digit comes first. -/
def Detached (s : List Char) : Prop := s = [] ∨ ∃ c r, s = c :: r ∧ IsMark c

theorem spells_of_detached {flag : Bool} {text u : List Char} (hu : Detached u) :
    Spells flag text u ↔ Spells false text u := by
  obtain rfl | ⟨c, r, rfl, hc⟩ := hu
  · rw [spells_nil_iff, spells_nil_iff]
  · rw [spells_mark_iff hc, spells_mark_iff hc]

section

variable {text u : List Char} (hu : Detached u)

include hu

theorem spells_digits_iff {ns : List Nat} :
    (∃ w, PlainDigits w ns ∧ Spells false text (w ++ u)) ↔
      ∃ s r, text = s ++ r ∧ GroupedDigits s ns ∧ Spells false r u := by
  constructor
  · rintro ⟨w, ⟨hne, hw, rfl⟩, hspells⟩
    obtain ⟨c, w, rfl⟩ := List.exists_cons_of_ne_nil hne
    rw [List.all_cons, Bool.and_eq_true] at hw
    obtain ⟨-, a, r, ha, hr, rfl | ⟨hflag, -⟩⟩ := spells_cons_iff.mp hspells
    · rw [hw.1] at hr
      obtain ⟨s, r, rfl, hs, hrest⟩ := spells_furtherDigits_iff.mp ⟨w, hw.2, rfl, hr⟩
      have hvalue := digitValue?_iff_plain.mpr ⟨c, ha, hw.1, rfl⟩
      exact ⟨a :: s, r, rfl, .intro hvalue hs, (spells_of_detached hu).mp hrest⟩
    · cases hflag
  · rintro ⟨_, r, rfl, ⟨hvalue, hs⟩, hrest⟩
    obtain ⟨w, hw, rfl, hspells⟩ :=
      spells_furtherDigits_iff.mpr ⟨_, r, rfl, hs, (spells_of_detached hu).mpr hrest⟩
    obtain ⟨p, hp, hdigit, rfl⟩ := digitValue?_iff_plain.mp hvalue
    refine ⟨p :: w, ⟨List.cons_ne_nil _ _, by rw [List.all_cons, hdigit, hw]; rfl, rfl⟩, ?_⟩
    refine spells_cons_iff.mpr ⟨ne_underscore_of_isDigit hdigit, _, _, hp, ?_, Or.inl rfl⟩
    rw [hdigit]
    exact hspells

theorem spells_optional_iff {ns : List Nat} :
    (∃ w, Optional PlainDigits w ns ∧ Spells false text (w ++ u)) ↔
      ∃ s r, text = s ++ r ∧ Optional GroupedDigits s ns ∧ Spells false r u := by
  constructor
  · rintro ⟨_, ⟨⟩ | hw, hspells⟩
    · exact ⟨[], text, rfl, .absent, hspells⟩
    · obtain ⟨s, r, rfl, hs, hrest⟩ := (spells_digits_iff hu).mp ⟨_, hw, hspells⟩
      exact ⟨s, r, rfl, .present hs, hrest⟩
  · rintro ⟨_, r, rfl, ⟨⟩ | hs, hrest⟩
    · exact ⟨[], .absent, hrest⟩
    · obtain ⟨w, hw, hspells⟩ := (spells_digits_iff hu).mpr ⟨_, r, rfl, hs, hrest⟩
      exact ⟨w, .present hw, hspells⟩

end

theorem isMark_point : IsMark '.' := by
  unfold IsMark
  decide

theorem spells_mantissa_iff {text u : List Char} (hu : Detached u) {ns ms : List Nat} :
    (∃ w, Mantissa PlainDigits w ns ms ∧ Spells false text (w ++ u)) ↔
      ∃ s r, text = s ++ r ∧ Mantissa GroupedDigits s ns ms ∧ Spells false r u := by
  have hpoint : ∀ t, Detached ('.' :: t) := fun t => Or.inr ⟨'.', t, rfl, isMark_point⟩
  constructor
  · rintro ⟨_, hw | @⟨w, v, ns, ms, hw, hv, hne⟩, hspells⟩
    · obtain ⟨s, r, rfl, hs, hrest⟩ := (spells_digits_iff hu).mp ⟨_, hw, hspells⟩
      exact ⟨s, r, rfl, .whole hs, hrest⟩
    · rw [List.append_assoc, List.cons_append] at hspells
      obtain ⟨s, r, rfl, hs, hr⟩ := (spells_optional_iff (hpoint _)).mp ⟨w, hw, hspells⟩
      obtain ⟨r, rfl, hbehind⟩ := (spells_mark_iff isMark_point).mp hr
      obtain ⟨t, r, rfl, ht, hrest⟩ := (spells_optional_iff hu).mp ⟨v, hv, hbehind⟩
      exact ⟨s ++ '.' :: t, r, by simp, .pointed hs ht hne, hrest⟩
  · rintro ⟨_, r, rfl, hs | @⟨s, t, ns, ms, hs, ht, hne⟩, hrest⟩
    · obtain ⟨w, hw, hspells⟩ := (spells_digits_iff hu).mpr ⟨_, r, rfl, hs, hrest⟩
      exact ⟨w, .whole hw, hspells⟩
    · obtain ⟨v, hv, hfraction⟩ := (spells_optional_iff hu).mpr ⟨t, r, rfl, ht, hrest⟩
      obtain ⟨w, hw, hspells⟩ := (spells_optional_iff (hpoint _)).mpr
        ⟨s, '.' :: (t ++ r), rfl, hs, (spells_mark_iff isMark_point).mpr ⟨_, rfl, hfraction⟩⟩
      refine ⟨w ++ '.' :: v, .pointed hw hv hne, ?_⟩
      simpa using hspells

theorem isMark_of_sign {sign : List Char} {negative : Bool} (h : Sign sign negative) :
    ∀ c ∈ sign, IsMark c := by
  cases h with
  | absent => simp
  | plus => exact forall_mem_of_all (by decide)
  | minus => exact forall_mem_of_all (by decide)

theorem isMark_exponent {c : Char} (h : c = 'e' ∨ c = 'E') : IsMark c := by
  unfold IsMark
  obtain rfl | rfl := h <;> decide

theorem detached_of_exponent {Digits : List Char → List Nat → Prop} {s : List Char} {power : Int}
    (h : Exponent Digits s power) : Detached s := by
  cases h with
  | absent => exact Or.inl rfl
  | present hmark => exact Or.inr ⟨_, _, rfl, isMark_exponent hmark⟩

theorem spells_exponent_iff {text : List Char} {power : Int} :
    (∃ w, Exponent PlainDigits w power ∧ Spells false text w) ↔
      Exponent GroupedDigits text power := by
  constructor
  · rintro ⟨_, ⟨⟩ | ⟨hmark, hsign, hw⟩, hspells⟩
    · rw [spells_nil_iff.mp hspells]
      exact .absent
    · obtain ⟨r, rfl, hbehind⟩ := (spells_mark_iff (isMark_exponent hmark)).mp hspells
      obtain ⟨r, rfl, hdigits⟩ := (spells_marks_iff (isMark_of_sign hsign)).mp hbehind
      obtain ⟨s, r, rfl, hs, hrest⟩ := (spells_digits_iff (Or.inl rfl)).mp
        ⟨_, hw, by rwa [List.append_nil]⟩
      rw [spells_nil_iff.mp hrest, List.append_nil]
      exact .present hmark hsign hs
  · rintro (⟨⟩ | ⟨hmark, hsign, hs⟩)
    · exact ⟨[], .absent, spells_nil_iff.mpr rfl⟩
    · obtain ⟨w, hw, hspells⟩ := (spells_digits_iff (Or.inl rfl)).mpr
        ⟨_, [], (List.append_nil _).symm, hs, spells_nil_iff.mpr rfl⟩
      rw [List.append_nil] at hspells
      exact ⟨_, .present hmark hsign hw, (spells_mark_iff (isMark_exponent hmark)).mpr
        ⟨_, rfl, (spells_marks_iff (isMark_of_sign hsign)).mpr ⟨_, rfl, hspells⟩⟩⟩

theorem isMark_of_toLower {c : Char} (h : IsMark c.toLower) : IsMark c := by
  unfold Char.toLower at h
  split_ifs at h with hupper
  · have hlow : 65 ≤ c.toNat := UInt32.le_iff_toNat_le.mp hupper.1
    have hhigh : c.toNat ≤ 90 := UInt32.le_iff_toNat_le.mp hupper.2
    refine ⟨by omega, ?_, ?_, ?_⟩
    · rw [← Bool.not_eq_true, isDigit_iff]
      have hzero : '0'.toNat = 48 := rfl
      omega
    · rintro rfl
      exact absurd hhigh (by decide)
    · unfold isPlainBlank
      simp only [Bool.or_eq_false_iff, Bool.and_eq_false_iff, decide_eq_false_iff_not,
        beq_eq_false_iff_ne, ne_eq]
      refine ⟨?_, by omega⟩
      rintro rfl
      exact absurd hlow (by decide)
  · exact h

theorem isMark_of_word {word : List Char} {name : String} (h : word.map Char.toLower = name.toList)
    (hname : ∀ c ∈ name.toList, IsMark c) : ∀ c ∈ word, IsMark c := by
  intro c hc
  exact isMark_of_toLower (hname _ (h ▸ List.mem_map_of_mem hc))

theorem isMark_of_nan {word : List Char} (h : word.map Char.toLower = "nan".toList) :
    ∀ c ∈ word, IsMark c := by
  exact isMark_of_word h (forall_mem_of_all (by decide))

theorem isMark_of_infinity {word : List Char}
    (h : word.map Char.toLower = "inf".toList ∨ word.map Char.toLower = "infinity".toList) :
    ∀ c ∈ word, IsMark c := by
  obtain h | h := h
  · exact isMark_of_word h (forall_mem_of_all (by decide))
  · exact isMark_of_word h (forall_mem_of_all (by decide))

/-- A literal is spelled out by the literal with plain digits that is its plain form. -/
theorem spells_literal_iff {text : List Char} {quantity : Quantity} :
    (∃ w, Literal PlainDigits w quantity ∧ Spells false text w) ↔
      Literal GroupedDigits text quantity := by
  -- a word is the same in both
  have hsame : ∀ {sign negative word}, Sign sign negative → (∀ c ∈ word, IsMark c) →
      (Spells false text (sign ++ word) ↔ text = sign ++ word) := by
    intro sign negative word hsign hword
    rw [spells_marks_iff (isMark_of_sign hsign)]
    have hbehind : ∀ r, Spells false r word ↔ r = word := by
      intro r
      have h : Spells false r (word ++ []) ↔ _ := spells_marks_iff hword
      simpa [spells_nil_iff] using h
    simp [hbehind]
  constructor
  · rintro ⟨_, ⟨hsign, hw⟩ | ⟨hsign, hw⟩ | ⟨hsign, hw, he⟩, hspells⟩
    · rw [(hsame hsign (isMark_of_nan hw)).mp hspells]
      exact .nan hsign hw
    · rw [(hsame hsign (isMark_of_infinity hw)).mp hspells]
      exact .infinite hsign hw
    · obtain ⟨r, rfl, hr⟩ := (spells_marks_iff (isMark_of_sign hsign)).mp hspells
      obtain ⟨s, e, rfl, hs, hrest⟩ :=
        (spells_mantissa_iff (detached_of_exponent he)).mp ⟨_, hw, hr⟩
      exact .decimal hsign hs (spells_exponent_iff.mp ⟨_, he, hrest⟩)
  · rintro (⟨hsign, hw⟩ | ⟨hsign, hw⟩ | ⟨hsign, hs, he⟩)
    · exact ⟨_, .nan hsign hw, (hsame hsign (isMark_of_nan hw)).mpr rfl⟩
    · exact ⟨_, .infinite hsign hw, (hsame hsign (isMark_of_infinity hw)).mpr rfl⟩
    · obtain ⟨v, hv, hexponent⟩ := spells_exponent_iff.mpr he
      obtain ⟨w, hw, hspells⟩ := (spells_mantissa_iff (detached_of_exponent hv)).mpr
        ⟨_, _, rfl, hs, hexponent⟩
      exact ⟨_, .decimal hsign hw hv,
        (spells_marks_iff (isMark_of_sign hsign)).mpr ⟨_, rfl, hspells⟩⟩

end BuildRunner.Number
