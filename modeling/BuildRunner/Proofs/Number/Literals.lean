import BuildRunner.Proofs.Number.Spelling

/-!
# Reading numbers

Exactly the texts of the grammar are read, as the double that the number is rounded to.
-/

namespace BuildRunner.Number

/-! ## Reading a literal with plain digits -/

theorem naturalOf_eq (s : List Char) :
    naturalOf s = decimalOf (plainValues s) := by
  unfold naturalOf decimalOf plainValues
  induction s using List.reverseRecOn with
  | nil => rfl
  | append_singleton s c ih =>
      rw [List.foldl_append, ih, List.map_append, List.reverse_append]
      simp [Nat.ofDigits_cons, add_comm]

theorem naturalOf_append (s t : List Char) :
    naturalOf (s ++ t) = decimalOf (plainValues s ++ plainValues t) := by
  rw [naturalOf_eq, plainValues, List.map_append]
  rfl

@[simp] theorem length_plainValues (s : List Char) : (plainValues s).length = s.length :=
  List.length_map _

theorem takeSign_append {sign s : List Char} {negative : Bool} (hsign : Sign sign negative)
    (hs : ∀ r, s ≠ '+' :: r ∧ s ≠ '-' :: r) : takeSign (sign ++ s) = (negative, s) := by
  cases hsign with
  | absent =>
      rw [List.nil_append]
      unfold takeSign
      split
      · exact absurd rfl (hs _).2
      · exact absurd rfl (hs _).1
      · rfl
  | plus => rfl
  | minus => rfl

theorem sign_of_takeSign {s r : List Char} {negative : Bool} (h : takeSign s = (negative, r)) :
    ∃ sign, Sign sign negative ∧ s = sign ++ r := by
  unfold takeSign at h
  split at h
  · obtain ⟨rfl, rfl⟩ := Prod.mk.inj h
    exact ⟨['-'], .minus, rfl⟩
  · obtain ⟨rfl, rfl⟩ := Prod.mk.inj h
    exact ⟨['+'], .plus, rfl⟩
  · obtain ⟨rfl, rfl⟩ := Prod.mk.inj h
    exact ⟨[], .absent, rfl⟩

/-- Digits alone do not begin with a sign. -/
theorem ne_sign_of_isDigit {s t : List Char} (hne : s ≠ []) (hs : s.all Char.isDigit = true) :
    ∀ r, s ++ t ≠ '+' :: r ∧ s ++ t ≠ '-' :: r := by
  obtain ⟨c, s, rfl⟩ := List.exists_cons_of_ne_nil hne
  rw [List.all_cons, Bool.and_eq_true] at hs
  intro r
  rw [List.cons_append]
  constructor
  · rintro h
    obtain ⟨rfl, -⟩ := List.cons.inj h
    exact absurd hs.1 (by decide)
  · rintro h
    obtain ⟨rfl, -⟩ := List.cons.inj h
    exact absurd hs.1 (by decide)

theorem exponent?_eq_some_iff {s : List Char} {power : Int} :
    exponent? s = some power ↔ Exponent PlainDigits s power := by
  constructor
  · fun_cases exponent? s with
    | case1 =>
        intro h
        obtain rfl := Option.some.inj h
        exact .absent
    | case2 c r hmark negative digits htake hdigits => simp
    | case3 c r hmark negative digits htake hdigits n =>
        intro h
        obtain ⟨sign, hsign, rfl⟩ := sign_of_takeSign htake
        obtain rfl := Option.some.inj h
        rw [Bool.or_eq_true, not_or, List.isEmpty_iff, Bool.not_eq_true', Bool.not_eq_false]
          at hdigits
        rw [show n = decimalOf (plainValues digits) from congrArg Nat.cast (naturalOf_eq digits)]
        exact .present hmark hsign ⟨hdigits.1, hdigits.2, rfl⟩
    | case4 c r hmark => simp
  · rintro (⟨⟩ | @⟨mark, sign, negative, s, _, hmark, hsign, hne, hs, rfl⟩)
    · rfl
    · have htake := takeSign_append hsign fun r => by
        simpa using ne_sign_of_isDigit (t := []) hne hs r
      rw [exponent?, if_pos hmark, htake]
      dsimp only
      rw [if_neg (by simp [hne, hs]), naturalOf_eq]

/-! ### Numbers without blanks -/

theorem takeWhile_digits {s t : List Char} (hs : s.all Char.isDigit = true) (ht : Detached t) :
    (s ++ t).takeWhile Char.isDigit = s ∧ (s ++ t).dropWhile Char.isDigit = t := by
  have hfree : t.takeWhile Char.isDigit = [] ∧ t.dropWhile Char.isDigit = t := by
    obtain rfl | ⟨c, r, rfl, -, hc, -⟩ := ht
    · exact ⟨rfl, rfl⟩
    · simp [hc]
  have hall := List.all_eq_true.mp hs
  rw [List.takeWhile_append_of_pos hall, List.dropWhile_append_of_pos hall, hfree.1, hfree.2,
    List.append_nil]
  exact ⟨rfl, rfl⟩

theorem optional_plain_iff {s : List Char} {ns : List Nat} :
    Optional PlainDigits s ns ↔
      s.all Char.isDigit = true ∧ ns = plainValues s := by
  constructor
  · rintro (⟨⟩ | ⟨-, hs, hns⟩)
    · exact ⟨rfl, rfl⟩
    · exact ⟨hs, hns⟩
  · rintro ⟨hs, rfl⟩
    cases s with
    | nil => exact .absent
    | cons c s => exact .present ⟨List.cons_ne_nil _ _, hs, rfl⟩

/-- The parts that the reader finds are a mantissa. -/
theorem mantissa_of_split {body fraction behind : List Char}
    (hsplit : takeFraction (body.dropWhile Char.isDigit) = (fraction, behind))
    (hne : ¬((body.takeWhile Char.isDigit).isEmpty && fraction.isEmpty) = true) :
    ∃ s, body = s ++ behind ∧ Mantissa PlainDigits s
      (plainValues (body.takeWhile Char.isDigit)) (plainValues fraction) := by
  have hbody := List.takeWhile_append_dropWhile (p := Char.isDigit) (l := body)
  have hwhole : (body.takeWhile Char.isDigit).all Char.isDigit = true := List.all_takeWhile
  generalize body.takeWhile Char.isDigit = whole at hbody hwhole hne ⊢
  generalize body.dropWhile Char.isDigit = rest at hbody hsplit
  subst hbody
  unfold takeFraction at hsplit
  split at hsplit
  · next r =>
      obtain ⟨rfl, rfl⟩ := Prod.mk.inj hsplit
      refine ⟨whole ++ '.' :: r.takeWhile Char.isDigit, ?_, .pointed
        (optional_plain_iff.mpr ⟨hwhole, rfl⟩)
        (optional_plain_iff.mpr ⟨List.all_takeWhile, rfl⟩) ?_⟩
      · rw [List.append_assoc, List.cons_append, List.takeWhile_append_dropWhile]
      · simpa [plainValues] using hne
  · obtain ⟨rfl, rfl⟩ := Prod.mk.inj hsplit
    refine ⟨whole, rfl, .whole ⟨?_, hwhole, rfl⟩⟩
    simpa using hne

/-- The reader finds the parts of a mantissa. -/
theorem split_of_mantissa {s e : List Char} {ns ms : List Nat} (hs : Mantissa PlainDigits s ns ms)
    (he : ∀ r, e ≠ '.' :: r) (hdetached : Detached e) :
    ∃ fraction, takeFraction ((s ++ e).dropWhile Char.isDigit) = (fraction, e) ∧
      ns = plainValues ((s ++ e).takeWhile Char.isDigit) ∧ ms = plainValues fraction ∧
      ¬(((s ++ e).takeWhile Char.isDigit).isEmpty && fraction.isEmpty) = true := by
  obtain ⟨hne, hw, rfl⟩ | @⟨w, v, ns, ms, hw, hv, hne⟩ := hs
  · obtain ⟨htake, hdrop⟩ := takeWhile_digits hw hdetached
    rw [htake, hdrop]
    refine ⟨[], ?_, rfl, rfl, by simp [hne]⟩
    unfold takeFraction
    split
    · exact absurd rfl (he _)
    · rfl
  · rw [optional_plain_iff] at hw hv
    obtain ⟨hw, rfl⟩ := hw
    obtain ⟨hv, rfl⟩ := hv
    obtain ⟨htake, hdrop⟩ := takeWhile_digits hw (t := '.' :: (v ++ e))
      (Or.inr ⟨_, _, rfl, isMark_point⟩)
    obtain ⟨hfraction, hrest⟩ := takeWhile_digits hv hdetached
    rw [List.append_assoc, List.cons_append, htake, hdrop]
    refine ⟨v, ?_, rfl, rfl, by simpa [plainValues] using hne⟩
    rw [takeFraction, hfraction, hrest]

theorem literal_of_ofPlain? {s : List Char} {x : Binary64} :
    ofPlain? s = some x → ∃ quantity, Literal PlainDigits s quantity ∧ x = quantity.rounded := by
  fun_cases ofPlain? s with
  | case1 negative body htake word hword =>
      intro h
      obtain ⟨sign, hsign, rfl⟩ := sign_of_takeSign htake
      exact ⟨_, .infinite hsign hword, (Option.some.inj h).symm⟩
  | case2 negative body htake word hword hnan =>
      intro h
      obtain ⟨sign, hsign, rfl⟩ := sign_of_takeSign htake
      exact ⟨_, .nan hsign hnan, (Option.some.inj h).symm⟩
  | case3 negative body htake word hword hnan whole fraction behind hsplit hempty =>
      intro h
      cases h
  | case4 negative body htake word hword hnan whole fraction behind hsplit hempty =>
      intro h
      obtain ⟨sign, hsign, rfl⟩ := sign_of_takeSign htake
      obtain ⟨power, hpower, rfl⟩ := Option.map_eq_some_iff.mp h
      obtain ⟨s, rfl, hs⟩ := mantissa_of_split hsplit hempty
      refine ⟨_, .decimal hsign hs (exponent?_eq_some_iff.mp hpower), ?_⟩
      rw [Quantity.rounded, naturalOf_append, length_plainValues]

theorem toLower_digit {c : Char} (hc : c.isDigit = true ∨ c = '.') : c.toLower = c := by
  obtain hc | rfl := hc
  · have hzero : '0'.toNat = 48 := rfl
    rw [isDigit_iff] at hc
    unfold Char.toLower
    split_ifs with hupper
    · have hlow : 65 ≤ c.toNat := UInt32.le_iff_toNat_le.mp hupper.1
      omega
    · rfl
  · rfl

/-- A mantissa begins with a digit or a point. -/
theorem mantissa_head {s : List Char} {ns ms : List Nat} (h : Mantissa PlainDigits s ns ms) :
    ∃ c r, s = c :: r ∧ (c.isDigit = true ∨ c = '.') := by
  have hdigits : ∀ {s ns}, PlainDigits s ns → ∃ c r, s = c :: r ∧ c.isDigit = true := by
    rintro s ns ⟨hne, hs, -⟩
    obtain ⟨c, r, rfl⟩ := List.exists_cons_of_ne_nil hne
    rw [List.all_cons, Bool.and_eq_true] at hs
    exact ⟨c, r, rfl, hs.1⟩
  obtain hs | ⟨⟨⟩ | hs, -, -⟩ := h
  · obtain ⟨c, r, rfl, hc⟩ := hdigits hs
    exact ⟨c, r, rfl, Or.inl hc⟩
  · exact ⟨_, _, rfl, Or.inr rfl⟩
  · obtain ⟨c, r, rfl, hc⟩ := hdigits hs
    exact ⟨c, _, rfl, Or.inl hc⟩

theorem ofPlain?_of_literal {s : List Char} {quantity : Quantity}
    (h : Literal PlainDigits s quantity) : ofPlain? s = some quantity.rounded := by
  obtain @⟨sign, negative, word, hsign, hword⟩ | @⟨sign, negative, word, hsign, hword⟩ |
    @⟨sign, negative, s, ns, ms, e, power, hsign, hs, he⟩ := h
  · have htake : takeSign (sign ++ word) = (negative, word) := takeSign_append hsign fun r =>
      ⟨by rintro rfl; simp at hword, by rintro rfl; simp at hword⟩
    rw [ofPlain?, htake]
    dsimp only
    rw [if_neg (by rw [hword]; decide),
      if_pos (show word.map Char.toLower = ['n', 'a', 'n'] from hword)]
    rfl
  · have htake : takeSign (sign ++ word) = (negative, word) := takeSign_append hsign fun r =>
      ⟨by rintro rfl; simp at hword, by rintro rfl; simp at hword⟩
    rw [ofPlain?, htake]
    dsimp only
    rw [if_pos (show word.map Char.toLower = ['i', 'n', 'f'] ∨ _ from hword)]
    rfl
  · obtain ⟨c, r, rfl, hc⟩ := mantissa_head hs
    have hfirst : ∀ name : List Char, (c :: r ++ e).map Char.toLower = name →
        c ∈ name.head? := by
      rintro name rfl
      rw [List.cons_append, List.map_cons, toLower_digit hc]
      rfl
    have hhead : ∀ other : Char, other.isDigit = false → other ≠ '.' → c ≠ other := by
      rintro _ hdigit hpoint rfl
      obtain hc | hc := hc
      · rw [hdigit] at hc
        cases hc
      · exact hpoint hc
    have htake : takeSign (sign ++ (c :: r ++ e)) = (negative, c :: r ++ e) :=
      takeSign_append hsign fun t =>
        ⟨fun h => hhead '+' (by decide) (by decide) (List.cons.inj h).1,
          fun h => hhead '-' (by decide) (by decide) (List.cons.inj h).1⟩
    obtain ⟨fraction, hsplit, hns, hms, hempty⟩ := split_of_mantissa hs
      (by rintro t rfl; exact absurd (exponent?_eq_some_iff.mpr he) (by simp [exponent?]))
      (detached_of_exponent he)
    have hinf : ¬((c :: r ++ e).map Char.toLower = ['i', 'n', 'f'] ∨
        (c :: r ++ e).map Char.toLower = "infinity".toList) := by
      rintro (h | h)
      · exact hhead 'i' (by decide) (by decide) (Option.some.inj (hfirst _ h)).symm
      · exact hhead 'i' (by decide) (by decide) (Option.some.inj (hfirst _ h)).symm
    have hnan : (c :: r ++ e).map Char.toLower ≠ ['n', 'a', 'n'] := fun h =>
      hhead 'n' (by decide) (by decide) (Option.some.inj (hfirst _ h)).symm
    rw [ofPlain?, htake]
    dsimp only
    rw [if_neg hinf, if_neg hnan, hsplit, if_neg hempty, exponent?_eq_some_iff.mpr he, hns, hms]
    rw [Option.map_some, Quantity.rounded, naturalOf_append, length_plainValues]

theorem ofPlain?_eq_some_iff {s : List Char} {x : Binary64} :
    ofPlain? s = some x ↔ ∃ quantity, Literal PlainDigits s quantity ∧ x = quantity.rounded := by
  constructor
  · exact literal_of_ofPlain?
  · rintro ⟨quantity, h, rfl⟩
    exact ofPlain?_of_literal h

/-! ## Blanks around a number -/

theorem plain?_append_iff {text a b : List Char} :
    plain? text = some (a ++ b) ↔
      ∃ s t, text = s ++ t ∧ plain? s = some a ∧ plain? t = some b := by
  constructor
  · induction a generalizing text with
    | nil => exact fun h => ⟨[], text, rfl, rfl, h⟩
    | cons c a ih =>
        intro h
        cases text with
        | nil => cases h
        | cons d text =>
            obtain ⟨_, _, hc, hrest, heq⟩ := plain?_cons.mp h
            obtain ⟨rfl, rfl⟩ := List.cons.inj heq
            obtain ⟨s, t, rfl, hs, ht⟩ := ih hrest
            exact ⟨d :: s, t, rfl, plain?_cons.mpr ⟨c, a, hc, hs, rfl⟩, ht⟩
  · rintro ⟨s, t, rfl, hs, ht⟩
    rw [plain?_eq, List.mapM_append, ← plain?_eq, ← plain?_eq, hs, ht]
    rfl

theorem margin_iff_plain {text : List Char} :
    text.all isMargin = true ↔ ∃ s, plain? text = some s ∧ s.all isPlainBlank = true := by
  induction text with
  | nil => exact iff_of_true rfl ⟨[], rfl, rfl⟩
  | cons c text ih =>
      rw [List.all_cons, Bool.and_eq_true, isMargin_iff_plain, ih]
      constructor
      · rintro ⟨⟨p, hp, hblank⟩, s, hs, hrest⟩
        refine ⟨p :: s, plain?_cons.mpr ⟨p, s, hp, hs, rfl⟩, ?_⟩
        rw [List.all_cons, hblank, hrest]
        rfl
      · rintro ⟨_, hs, hblank⟩
        obtain ⟨p, r, hp, hr, rfl⟩ := plain?_cons.mp hs
        rw [List.all_cons, Bool.and_eq_true] at hblank
        exact ⟨⟨p, hp, hblank.1⟩, r, hr, hblank.2⟩

section

variable (blank : Char → Bool)

/-- What is stripped from a text are blanks. -/
theorem exists_stripped (s : List Char) : ∃ front back,
    s = front ++ ((s.dropWhile blank).reverse.dropWhile blank).reverse ++ back ∧
      front.all blank = true ∧ back.all blank = true := by
  refine ⟨s.takeWhile blank, ((s.dropWhile blank).reverse.takeWhile blank).reverse, ?_,
    List.all_takeWhile, ?_⟩
  · rw [List.append_assoc, ← List.reverse_append, List.takeWhile_append_dropWhile,
      List.reverse_reverse, List.takeWhile_append_dropWhile]
  · rw [List.all_reverse]
    exact List.all_takeWhile

/-- Blanks are stripped from a text without any. -/
theorem strip_eq {front core back : List Char} (hfront : front.all blank = true)
    (hback : back.all blank = true) (hcore : ∀ c ∈ core, blank c = false) :
    (((front ++ core ++ back).dropWhile blank).reverse.dropWhile blank).reverse = core := by
  have hblank : ∀ c ∈ back.reverse, blank c = true := fun c hc =>
    List.all_eq_true.mp hback c (List.mem_reverse.mp hc)
  rw [List.append_assoc, List.dropWhile_append_of_pos (List.all_eq_true.mp hfront)]
  cases core with
  | nil =>
      have hnothing : back.dropWhile blank = [] := by
        have h : (back ++ []).dropWhile blank = [] :=
          List.dropWhile_append_of_pos (List.all_eq_true.mp hback)
        rwa [List.append_nil] at h
      rw [List.nil_append, hnothing]
      rfl
  | cons c core =>
      have hlast : (c :: core).reverse.dropWhile blank = (c :: core).reverse := by
        cases hreverse : (c :: core).reverse with
        | nil => rfl
        | cons d r =>
            have hd : d ∈ c :: core := List.mem_reverse.mp (hreverse ▸ List.mem_cons_self)
            rw [List.dropWhile_cons_of_neg (by simp [hcore d hd])]
      rw [List.cons_append, List.dropWhile_cons_of_neg (by simp [hcore c List.mem_cons_self]),
        ← List.cons_append, List.reverse_append, List.dropWhile_append_of_pos hblank, hlast,
        List.reverse_reverse]

end

theorem isPlainBlank_of_plainDigits {s : List Char} {ns : List Nat} (h : PlainDigits s ns) :
    ∀ c ∈ s, isPlainBlank c = false := fun c hc =>
  isPlainBlank_digit (List.all_eq_true.mp h.2.1 c hc)

theorem isPlainBlank_of_optional {s : List Char} {ns : List Nat} (h : Optional PlainDigits s ns) :
    ∀ c ∈ s, isPlainBlank c = false := by
  cases h with
  | absent => simp
  | present h => exact isPlainBlank_of_plainDigits h

/-- A literal with plain digits has no blanks. -/
theorem isPlainBlank_of_literal {s : List Char} {quantity : Quantity}
    (h : Literal PlainDigits s quantity) : ∀ c ∈ s, isPlainBlank c = false := by
  have hmarks : ∀ {s : List Char}, (∀ c ∈ s, IsMark c) → ∀ c ∈ s, isPlainBlank c = false :=
    fun hs c hc => (hs c hc).2.2.2
  have happend : ∀ {s t : List Char}, (∀ c ∈ s, isPlainBlank c = false) →
      (∀ c ∈ t, isPlainBlank c = false) → ∀ c ∈ s ++ t, isPlainBlank c = false :=
    fun hs ht c hc => (List.mem_append.mp hc).elim (hs c) (ht c)
  have hcons : ∀ {a : Char} {s : List Char}, IsMark a →
      (∀ c ∈ s, isPlainBlank c = false) → ∀ c ∈ a :: s, isPlainBlank c = false :=
    fun ha hs c hc => (List.mem_cons.mp hc).elim (fun h => h ▸ ha.2.2.2) (hs c)
  obtain ⟨hsign, hword⟩ | ⟨hsign, hword⟩ | ⟨hsign, hmantissa, hexponent⟩ := h
  · exact happend (hmarks (isMark_of_sign hsign)) (hmarks (isMark_of_nan hword))
  · exact happend (hmarks (isMark_of_sign hsign)) (hmarks (isMark_of_infinity hword))
  · refine happend (hmarks (isMark_of_sign hsign)) (happend ?_ ?_)
    · obtain hs | ⟨hs, ht, -⟩ := hmantissa
      · exact isPlainBlank_of_plainDigits hs
      · exact happend (isPlainBlank_of_optional hs)
          (hcons isMark_point (isPlainBlank_of_optional ht))
    · obtain ⟨⟩ | ⟨hmark, hsign, hs⟩ := hexponent
      · simp
      · exact hcons (isMark_exponent hmark)
          (happend (hmarks (isMark_of_sign hsign)) (isPlainBlank_of_plainDigits hs))

theorem mem_of_ungroup? {flag : Bool} {s u : List Char} (h : ungroup? flag s = some u) :
    ∀ c ∈ s, c = '_' ∨ c ∈ u := by
  induction u generalizing flag s with
  | nil =>
      obtain rfl := ungroup?_eq_nil_iff.mp h
      simp
  | cons d u ih =>
      obtain ⟨-, r, hr, hs⟩ := ungroup?_eq_cons_iff.mp h
      have hrest := ih hr
      intro c hc
      obtain rfl | ⟨-, -, rfl⟩ := hs
      · grind
      · grind

/-- Exactly the texts that denote a number are read, as the double it is rounded to. -/
theorem ofString?_eq_some_iff {s : String} {x : Binary64} :
    Binary64.ofString? s = some x ↔
      ∃ quantity, Denotes s.toList quantity ∧ x = quantity.rounded := by
  simp only [Binary64.ofString?, Option.bind_eq_bind, Option.bind_eq_some_iff,
    ofPlain?_eq_some_iff]
  constructor
  · rintro ⟨plain, hplain, u, hu, quantity, hliteral, rfl⟩
    obtain ⟨front, back, hstrip, hfront, hback⟩ := exists_stripped isPlainBlank plain
    rw [hstrip] at hplain
    obtain ⟨front', back', htext, hplainFront, hplainBack⟩ := plain?_append_iff.mp hplain
    obtain ⟨front'', core, rfl, hplainFront', hplainCore⟩ := plain?_append_iff.mp hplainFront
    exact ⟨quantity, ⟨front'', core, back', htext, margin_iff_plain.mpr ⟨_, hplainFront', hfront⟩,
      margin_iff_plain.mpr ⟨_, hplainBack, hback⟩,
      spells_literal_iff.mp ⟨u, hliteral, _, hplainCore, hu⟩⟩, rfl⟩
  · rintro ⟨quantity, ⟨front, core, back, htext, hfront, hback, hliteral⟩, rfl⟩
    obtain ⟨f, hf, hblankFront⟩ := margin_iff_plain.mp hfront
    obtain ⟨b, hb, hblankBack⟩ := margin_iff_plain.mp hback
    obtain ⟨u, hu, p, hp, hspells⟩ := spells_literal_iff.mpr hliteral
    have hcore : ∀ c ∈ p, isPlainBlank c = false := by
      intro c hc
      obtain rfl | hmem := mem_of_ungroup? hspells c hc
      · decide
      · exact isPlainBlank_of_literal hu c hmem
    refine ⟨f ++ p ++ b, ?_, u, ?_, quantity, hu, rfl⟩
    · rw [htext]
      exact plain?_append_iff.mpr ⟨_, _, rfl, plain?_append_iff.mpr ⟨_, _, rfl, hf, hp⟩, hb⟩
    · rw [strip_eq isPlainBlank hblankFront hblankBack hcore]
      exact hspells

end BuildRunner.Number
