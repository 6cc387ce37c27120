import BuildRunner.Text.Utf8
import Mathlib.Data.List.Basic

/-!
# Reading UTF-8

The bytes that a program wrote are read as characters where they encode some, and elsewhere as
replacement characters, each of which stands for a maximal invalid sequence.  `Decodes` says this by
the encoding of characters alone, and `decodeUtf8` is the only reading that there is.  A sequence
that is cut off never takes a byte of the character behind it.
-/

namespace BuildRunner.Text

open String (utf8EncodeChar)

/-! ## Sequences of bytes -/

theorem between_iff {low high b : UInt8} :
    between low high b = true ↔ low.toNat ≤ b.toNat ∧ b.toNat ≤ high.toNat := by
  rw [between, Bool.and_eq_true, decide_eq_true_eq, decide_eq_true_eq, UInt8.le_iff_toNat_le,
    UInt8.le_iff_toNat_le]

theorem isContinuation_iff {b : UInt8} :
    isContinuation b = true ↔ 0x80 ≤ b.toNat ∧ b.toNat ≤ 0xbf :=
  between_iff

theorem secondOfThree_iff {a b : UInt8} :
    secondOfThree a b = true ↔ (0x80 ≤ b.toNat ∧ b.toNat ≤ 0xbf) ∧
      (a.toNat = 0xe0 → 0xa0 ≤ b.toNat) ∧ (a.toNat = 0xed → b.toNat ≤ 0x9f) := by
  have he0 : a = 0xe0 ↔ a.toNat = 0xe0 := UInt8.toNat_inj.symm
  have hed : a = 0xed ↔ a.toNat = 0xed := UInt8.toNat_inj.symm
  unfold secondOfThree
  simp only [he0, hed]
  split_ifs <;> simp only [between_iff, isContinuation_iff, UInt8.reduceToNat] <;> omega

theorem secondOfFour_iff {a b : UInt8} :
    secondOfFour a b = true ↔ (0x80 ≤ b.toNat ∧ b.toNat ≤ 0xbf) ∧
      (a.toNat = 0xf0 → 0x90 ≤ b.toNat) ∧ (a.toNat = 0xf4 → b.toNat ≤ 0x8f) := by
  have hf0 : a = 0xf0 ↔ a.toNat = 0xf0 := UInt8.toNat_inj.symm
  have hf4 : a = 0xf4 ↔ a.toNat = 0xf4 := UInt8.toNat_inj.symm
  unfold secondOfFour
  simp only [hf0, hf4]
  split_ifs <;> simp only [between_iff, isContinuation_iff, UInt8.reduceToNat] <;> omega

/-- The sequences that encode a character, by the ranges of their bytes, with its code point. -/
inductive IsSequence : Bytes → Nat → Prop
  | one {a : UInt8} (ha : a < 0x80) : IsSequence [a] a.toNat
  | two {a b : UInt8} (ha : between 0xc2 0xdf a = true) (hb : isContinuation b = true) :
    IsSequence [a, b] (a.toNat % 0x20 * 0x40 + payload b)
  | three {a b c : UInt8} (ha : between 0xe0 0xef a = true) (hb : secondOfThree a b = true)
    (hc : isContinuation c = true) :
    IsSequence [a, b, c] ((a.toNat % 0x10 * 0x40 + payload b) * 0x40 + payload c)
  | four {a b c d : UInt8} (ha : between 0xf0 0xf4 a = true) (hb : secondOfFour a b = true)
    (hc : isContinuation c = true) (hd : isContinuation d = true) :
    IsSequence [a, b, c, d]
      (((a.toNat % 0x08 * 0x40 + payload b) * 0x40 + payload c) * 0x40 + payload d)

theorem toNat_ofNat_of_valid {n : Nat} (hn : n.isValidChar) : (Char.ofNat n).val.toNat = n := by
  unfold Char.ofNat
  rw [dif_pos hn]
  rfl

theorem ofNat_eq_of_toNat {n : Nat} {b : UInt8} (hn : b.toNat = n) : UInt8.ofNat n = b := by
  rw [← hn, UInt8.ofNat_toNat]

/-- The bytes of a character by its code point. -/
theorem utf8EncodeChar_of_toNat {c : Char} {n : Nat} (hc : c.val.toNat = n) :
    utf8EncodeChar c =
      if n ≤ 0x7f then [UInt8.ofNat n]
      else if n ≤ 0x7ff then [UInt8.ofNat (n / 64 % 0x20 + 0xc0), UInt8.ofNat (n % 0x40 + 0x80)]
      else if n ≤ 0xffff then
        [UInt8.ofNat (n / 4096 % 0x10 + 0xe0), UInt8.ofNat (n / 64 % 0x40 + 0x80),
          UInt8.ofNat (n % 0x40 + 0x80)]
      else
        [UInt8.ofNat (n / 262144 % 0x08 + 0xf0), UInt8.ofNat (n / 4096 % 0x40 + 0x80),
          UInt8.ofNat (n / 64 % 0x40 + 0x80), UInt8.ofNat (n % 0x40 + 0x80)] := by
  subst hc
  rfl

theorem payload_eq (b : UInt8) : payload b = b.toNat % 0x40 := rfl

/-- A sequence encodes the character of its code point. -/
theorem IsSequence.encodes {bytes : Bytes} {n : Nat} (hsequence : IsSequence bytes n) :
    utf8EncodeChar (Char.ofNat n) = bytes := by
  cases hsequence with
  | @one a ha =>
      simp only [UInt8.lt_iff_toNat_lt, UInt8.reduceToNat] at ha
      rw [utf8EncodeChar_of_toNat (toNat_ofNat_of_valid (Or.inl (by omega))), if_pos (by omega),
        UInt8.ofNat_toNat]
  | @two a b ha hb =>
      simp only [between_iff, UInt8.reduceToNat] at ha
      rw [isContinuation_iff] at hb
      have hpb := payload_eq b
      rw [utf8EncodeChar_of_toNat (toNat_ofNat_of_valid (Or.inl (by omega))), if_neg (by omega),
        if_pos (by omega), ofNat_eq_of_toNat (b := a) (by omega),
        ofNat_eq_of_toNat (b := b) (by omega)]
  | @three a b c ha hb hc =>
      simp only [between_iff, UInt8.reduceToNat] at ha
      rw [secondOfThree_iff] at hb
      rw [isContinuation_iff] at hc
      have hpb := payload_eq b
      have hpc := payload_eq c
      have hvalid : ((a.toNat % 0x10 * 0x40 + payload b) * 0x40 + payload c).isValidChar := by
        unfold Nat.isValidChar
        omega
      rw [utf8EncodeChar_of_toNat (toNat_ofNat_of_valid hvalid), if_neg (by omega),
        if_neg (by omega), if_pos (by omega), ofNat_eq_of_toNat (b := a) (by omega),
        ofNat_eq_of_toNat (b := b) (by omega), ofNat_eq_of_toNat (b := c) (by omega)]
  | @four a b c d ha hb hc hd =>
      simp only [between_iff, UInt8.reduceToNat] at ha
      rw [secondOfFour_iff] at hb
      rw [isContinuation_iff] at hc hd
      have hpb := payload_eq b
      have hpc := payload_eq c
      have hpd := payload_eq d
      have hvalid : (((a.toNat % 0x08 * 0x40 + payload b) * 0x40 + payload c) * 0x40 +
          payload d).isValidChar := by
        unfold Nat.isValidChar
        omega
      rw [utf8EncodeChar_of_toNat (toNat_ofNat_of_valid hvalid), if_neg (by omega),
        if_neg (by omega), if_neg (by omega), ofNat_eq_of_toNat (b := a) (by omega),
        ofNat_eq_of_toNat (b := b) (by omega), ofNat_eq_of_toNat (b := c) (by omega),
        ofNat_eq_of_toNat (b := d) (by omega)]

/-- What encodes a character is a sequence with its code point. -/
theorem isSequence_utf8EncodeChar (c : Char) :
    ∃ n, IsSequence (utf8EncodeChar c) n ∧ n = c.val.toNat := by
  have hvalid : c.val.toNat.isValidChar := c.valid
  unfold Nat.isValidChar at hvalid
  rw [utf8EncodeChar_of_toNat rfl]
  generalize c.val.toNat = n at hvalid
  have hbyte : ∀ n, n < 256 → (UInt8.ofNat n).toNat = n := fun n hn => by
    rw [UInt8.toNat_ofNat', Nat.mod_eq_of_lt hn]
  have hlast := hbyte (n % 0x40 + 0x80) (by omega)
  have hthird := hbyte (n / 64 % 0x40 + 0x80) (by omega)
  split_ifs with hone htwo hthree
  · have hfirst := hbyte n (by omega)
    refine ⟨_, .one ?_, hfirst⟩
    simp only [UInt8.lt_iff_toNat_lt, UInt8.reduceToNat]
    omega
  · have hfirst := hbyte (n / 64 % 0x20 + 0xc0) (by omega)
    refine ⟨_, .two ?_ ?_, ?_⟩
    · simp only [between_iff, UInt8.reduceToNat]
      omega
    · rw [isContinuation_iff]
      omega
    · rw [payload_eq, hlast]
      omega
  · have hfirst := hbyte (n / 4096 % 0x10 + 0xe0) (by omega)
    refine ⟨_, .three ?_ ?_ ?_, ?_⟩
    · simp only [between_iff, UInt8.reduceToNat]
      omega
    · rw [secondOfThree_iff]
      omega
    · rw [isContinuation_iff]
      omega
    · rw [payload_eq, payload_eq, hlast, hthird]
      omega
  · have hfirst := hbyte (n / 262144 % 0x08 + 0xf0) (by omega)
    have hsecond := hbyte (n / 4096 % 0x40 + 0x80) (by omega)
    refine ⟨_, .four ?_ ?_ ?_ ?_, ?_⟩
    · simp only [between_iff, UInt8.reduceToNat]
      omega
    · rw [secondOfFour_iff]
      omega
    · rw [isContinuation_iff]
      omega
    · rw [isContinuation_iff]
      omega
    · rw [payload_eq, payload_eq, payload_eq, hlast, hthird, hsecond]
      omega

/-- The first byte of a sequence tells how many more there are. -/
theorem IsSequence.length_tail {a : UInt8} {tail : Bytes} {n : Nat}
    (hsequence : IsSequence (a :: tail) n) :
    (a.toNat < 0x80 ∧ tail.length = 0) ∨
      (0xc2 ≤ a.toNat ∧ a.toNat ≤ 0xdf ∧ tail.length = 1) ∨
        (0xe0 ≤ a.toNat ∧ a.toNat ≤ 0xef ∧ tail.length = 2) ∨
          (0xf0 ≤ a.toNat ∧ a.toNat ≤ 0xf4 ∧ tail.length = 3) := by
  cases hsequence with
  | one ha =>
      simp only [UInt8.lt_iff_toNat_lt, UInt8.reduceToNat] at ha
      exact Or.inl ⟨ha, rfl⟩
  | two ha hb =>
      rw [between_iff] at ha
      exact Or.inr (Or.inl ⟨ha.1, ha.2, rfl⟩)
  | three ha hb hc =>
      rw [between_iff] at ha
      exact Or.inr (Or.inr (Or.inl ⟨ha.1, ha.2, rfl⟩))
  | four ha hb hc hd =>
      rw [between_iff] at ha
      exact Or.inr (Or.inr (Or.inr ⟨ha.1, ha.2, rfl⟩))

/-- Behind the first byte of a sequence come bytes that continue it. -/
theorem IsSequence.continues {a : UInt8} {tail : Bytes} {n : Nat}
    (hsequence : IsSequence (a :: tail) n) : ∀ b ∈ tail, isContinuation b = true := by
  simp only [isContinuation_iff]
  intro b hmem
  cases hsequence with
  | one ha => cases hmem
  | two ha hb =>
      rw [isContinuation_iff] at hb
      simp only [List.mem_singleton] at hmem
      rw [hmem]
      exact hb
  | three ha hb hc =>
      rw [isContinuation_iff] at hc
      rw [secondOfThree_iff] at hb
      simp only [List.mem_cons, List.not_mem_nil, or_false] at hmem
      rcases hmem with rfl | rfl
      · exact hb.1
      · exact hc
  | four ha hb hc hd =>
      rw [isContinuation_iff] at hc hd
      rw [secondOfFour_iff] at hb
      simp only [List.mem_cons, List.not_mem_nil, or_false] at hmem
      rcases hmem with rfl | rfl | rfl
      · exact hb.1
      · exact hc
      · exact hd

theorem IsSequence.unique {bytes : Bytes} {n k : Nat} (hn : IsSequence bytes n)
    (hk : IsSequence bytes k) : n = k := by
  cases hn with
  | _ =>
      cases hk with
      | _ => rfl

/-- A character is told by how its bytes begin, whatever stands behind them. -/
theorem utf8EncodeChar_append_inj {c d : Char} {r r' : Bytes}
    (heq : utf8EncodeChar c ++ r = utf8EncodeChar d ++ r') : c = d ∧ r = r' := by
  obtain ⟨n, hc, hn⟩ := isSequence_utf8EncodeChar c
  obtain ⟨k, hd, hk⟩ := isSequence_utf8EncodeChar d
  have hsame : utf8EncodeChar c = utf8EncodeChar d ∧ r = r' := by
    apply List.append_inj heq
    generalize utf8EncodeChar c = s at hc heq
    generalize utf8EncodeChar d = t at hd heq
    cases s with
    | nil => cases hc
    | cons a s =>
        cases t with
        | nil => cases hd
        | cons b t =>
            obtain ⟨rfl, -⟩ := List.cons.inj heq
            have hs := hc.length_tail
            have ht := hd.length_tail
            simp only [List.length_cons]
            omega
  rw [hsame.1] at hc
  have hcode : c.val.toNat = d.val.toNat := by
    rw [← hn, ← hk]
    exact hc.unique hd
  exact ⟨Char.toNat_inj.mp hcode, hsame.2⟩

theorem utf8EncodeChar_ne_nil (c : Char) : utf8EncodeChar c ≠ [] := by
  obtain ⟨n, hc, -⟩ := isSequence_utf8EncodeChar c
  intro hnil
  rw [hnil] at hc
  cases hc

/-! ## What a reading is -/

/-- The bytes begin the encoding of some character. -/
def Begins (bytes : Bytes) : Prop := ∃ c, bytes <+: utf8EncodeChar c

/-- No character is encoded here, and the bytes are the longest that begin one, or a single byte if
there are none. -/
structure IsInvalid (bytes rest : Bytes) : Prop where
  ne_nil : bytes ≠ []
  none : ∀ c, ¬utf8EncodeChar c <+: bytes ++ rest
  begins : 1 < bytes.length → Begins bytes
  longest : ∀ b ∈ rest.head?, ¬Begins (bytes ++ [b])

/-- A reading of bytes: characters where some are encoded, and replacement characters for maximal
invalid sequences elsewhere. -/
inductive Decodes : Bytes → List Char → Prop
  | nil : Decodes [] []
  | char (c : Char) {rest : Bytes} {s : List Char} :
    Decodes rest s → Decodes (utf8EncodeChar c ++ rest) (c :: s)
  | invalid {bytes rest : Bytes} {s : List Char} (hinvalid : IsInvalid bytes rest) :
    Decodes rest s → Decodes (bytes ++ rest) (replacement :: s)

theorem Begins.exists_sequence {bytes : Bytes} (hbegins : Begins bytes) :
    ∃ rest n, IsSequence (bytes ++ rest) n := by
  obtain ⟨c, rest, hc⟩ := hbegins
  obtain ⟨n, hsequence, -⟩ := isSequence_utf8EncodeChar c
  exact ⟨rest, n, hc ▸ hsequence⟩

theorem IsSequence.begins {bytes rest : Bytes} {n : Nat}
    (hsequence : IsSequence (bytes ++ rest) n) : Begins bytes :=
  ⟨Char.ofNat n, rest, hsequence.encodes.symm⟩

/-- Bytes are invalid if they encode no character and cannot be continued. -/
theorem isInvalid_of_longest {a : UInt8} {tail rest : Bytes}
    (hshort : ∀ more n, IsSequence (a :: more) n → tail.length < more.length)
    (hbegins : 0 < tail.length → Begins (a :: tail))
    (hlongest : ∀ b ∈ rest.head?, ¬Begins (a :: tail ++ [b])) : IsInvalid (a :: tail) rest where
  ne_nil := by simp
  none := by
    rintro c ⟨behind, hc⟩
    obtain ⟨n, hsequence, -⟩ := isSequence_utf8EncodeChar c
    cases hbytes : utf8EncodeChar c with
    | nil => exact utf8EncodeChar_ne_nil c hbytes
    | cons first more =>
        rw [hbytes] at hc hsequence
        obtain ⟨rfl, hmore⟩ := List.cons.inj hc
        have hlength := hshort more n hsequence
        -- the character would continue the bytes
        obtain ⟨middle, rfl⟩ : tail <+: more :=
          List.prefix_of_prefix_length_le ⟨rest, rfl⟩ ⟨behind, hmore⟩ (Nat.le_of_lt hlength)
        change (tail ++ middle) ++ behind = tail ++ rest at hmore
        rw [List.append_assoc, List.append_cancel_left_eq] at hmore
        cases middle with
        | nil => simp at hlength
        | cons b middle =>
            refine hlongest b (by rw [← hmore]; rfl) ?_
            refine @IsSequence.begins _ middle n ?_
            simpa using hsequence
  begins hlength := hbegins (by simpa using hlength)
  longest := hlongest

/-- A sequence that begins with two given bytes, by the number of its bytes. -/
theorem Begins.second {a b : UInt8} {tail : Bytes} (hbegins : Begins (a :: b :: tail)) :
    (between 0xc2 0xdf a = true ∧ isContinuation b = true) ∨
      (between 0xe0 0xef a = true ∧ secondOfThree a b = true) ∨
        (between 0xf0 0xf4 a = true ∧ secondOfFour a b = true) := by
  obtain ⟨rest, n, hsequence⟩ := hbegins.exists_sequence
  rw [List.cons_append, List.cons_append] at hsequence
  generalize tail ++ rest = more at hsequence
  cases hsequence with
  | two ha hb => exact Or.inl ⟨ha, hb⟩
  | three ha hb hc => exact Or.inr (Or.inl ⟨ha, hb⟩)
  | four ha hb hc hd => exact Or.inr (Or.inr ⟨ha, hb⟩)

/-- All bytes behind the first one continue it. -/
theorem Begins.continues {a b : UInt8} {tail : Bytes} (hbegins : Begins (a :: tail ++ [b])) :
    isContinuation b = true := by
  obtain ⟨rest, n, hsequence⟩ := hbegins.exists_sequence
  rw [List.cons_append, List.cons_append] at hsequence
  exact hsequence.continues b (by simp)

section

variable {a b c : UInt8} {rest : Bytes}

theorem isInvalid_one (ha : ¬a < 0x80) (hlongest : ∀ b ∈ rest.head?, ¬Begins [a, b]) :
    IsInvalid [a] rest := by
  refine isInvalid_of_longest (fun more n hsequence => ?_) (fun hpos => absurd hpos (by decide))
    hlongest
  simp only [UInt8.lt_iff_toNat_lt, UInt8.reduceToNat] at ha
  have hlength := hsequence.length_tail
  simp only [List.length_nil]
  omega

theorem isInvalid_two (ha : 0xe0 ≤ a.toNat) (hbegins : Begins [a, b])
    (hlongest : ∀ c ∈ rest.head?, isContinuation c = false) : IsInvalid [a, b] rest := by
  refine isInvalid_of_longest (fun more n hsequence => ?_) (fun _ => hbegins)
    fun c hc hlonger => ?_
  · have hlength := hsequence.length_tail
    simp only [List.length_singleton]
    omega
  · have hends := hlongest c hc
    rw [hlonger.continues] at hends
    cases hends

theorem isInvalid_three (ha : 0xf0 ≤ a.toNat) (hbegins : Begins [a, b, c])
    (hlongest : ∀ d ∈ rest.head?, isContinuation d = false) : IsInvalid [a, b, c] rest := by
  refine isInvalid_of_longest (fun more n hsequence => ?_) (fun _ => hbegins)
    fun d hd hlonger => ?_
  · have hlength := hsequence.length_tail
    simp only [List.length_cons, List.length_nil]
    omega
  · have hends := hlongest d hd
    rw [hlonger.continues] at hends
    cases hends

end

/-- A reading begins with a character or with an invalid sequence, and goes on behind it. -/
def StepsOn (x : Bytes) : Prop :=
  (∃ c rest, x = utf8EncodeChar c ++ rest ∧ decodeUtf8 x = c :: decodeUtf8 rest) ∨
    ∃ bytes rest, x = bytes ++ rest ∧ IsInvalid bytes rest ∧
      decodeUtf8 x = replacement :: decodeUtf8 rest

theorem IsSequence.stepsOn {bytes r : Bytes} {n : Nat} (hsequence : IsSequence bytes n)
    (hdecode : decodeUtf8 (bytes ++ r) = Char.ofNat n :: decodeUtf8 r) :
    StepsOn (bytes ++ r) :=
  Or.inl ⟨Char.ofNat n, r, by rw [hsequence.encodes], hdecode⟩

theorem IsInvalid.stepsOn {bytes r : Bytes} (hinvalid : IsInvalid bytes r)
    (hdecode : decodeUtf8 (bytes ++ r) = replacement :: decodeUtf8 r) :
    StepsOn (bytes ++ r) :=
  Or.inr ⟨bytes, r, rfl, hinvalid, hdecode⟩

section

variable {a : UInt8} (hone : ¬a < 0x80)

include hone

theorem stepsOn_two (ha : between 0xc2 0xdf a = true) (r : Bytes) : StepsOn (a :: r) := by
  have hranges := between_iff.mp ha
  simp only [UInt8.reduceToNat] at hranges
  cases r with
  | nil =>
      refine (isInvalid_one hone (by simp)).stepsOn (r := []) ?_
      rw [decodeUtf8.eq_def]
      dsimp only [List.cons_append, List.nil_append]
      rw [if_neg hone, if_pos ha]
      rfl
  | cons b r =>
      by_cases hb : isContinuation b = true
      · refine (IsSequence.two ha hb).stepsOn ?_
        rw [decodeUtf8.eq_def]
        dsimp only [List.cons_append, List.nil_append]
        rw [if_neg hone, if_pos ha, if_pos hb]
      · refine (isInvalid_one hone fun other hother hbegins => ?_).stepsOn ?_
        · obtain rfl : b = other := by simpa using hother
          exact hb (@Begins.continues a b [] hbegins)
        · rw [decodeUtf8.eq_def]
          dsimp only [List.cons_append, List.nil_append]
          rw [if_neg hone, if_pos ha, if_neg hb]

theorem stepsOn_three (ha : between 0xe0 0xef a = true) (r : Bytes) : StepsOn (a :: r) := by
  have hranges := between_iff.mp ha
  simp only [UInt8.reduceToNat] at hranges
  have htwo : ¬between 0xc2 0xdf a = true := by
    simp only [between_iff, UInt8.reduceToNat]
    omega
  have hfour : ¬between 0xf0 0xf4 a = true := by
    simp only [between_iff, UInt8.reduceToNat]
    omega
  have hbegins : ∀ {b}, secondOfThree a b = true → Begins [a, b] := fun hb =>
    @IsSequence.begins _ [0x80] _ (.three ha hb (by decide))
  have hno : ∀ {b}, ¬secondOfThree a b = true → ¬Begins [a, b] := by
    intro b hb hbegins
    rcases hbegins.second with ⟨h, -⟩ | ⟨-, h⟩ | ⟨h, -⟩
    · exact htwo h
    · exact hb h
    · exact hfour h
  cases r with
  | nil =>
      refine (isInvalid_one hone (by simp)).stepsOn (r := []) ?_
      rw [decodeUtf8.eq_def]
      dsimp only [List.cons_append, List.nil_append]
      rw [if_neg hone, if_neg htwo, if_pos ha]
      rfl
  | cons b r =>
      by_cases hb : secondOfThree a b = true
      · cases r with
        | nil =>
            refine (isInvalid_two hranges.1 (hbegins hb) (by simp)).stepsOn (r := []) ?_
            rw [decodeUtf8.eq_def]
            dsimp only [List.cons_append, List.nil_append]
            rw [if_neg hone, if_neg htwo, if_pos ha, if_pos hb]
            rfl
        | cons c r =>
            by_cases hc : isContinuation c = true
            · refine (IsSequence.three ha hb hc).stepsOn ?_
              rw [decodeUtf8.eq_def]
              dsimp only [List.cons_append, List.nil_append]
              rw [if_neg hone, if_neg htwo, if_pos ha, if_pos hb, if_pos hc]
            · refine (isInvalid_two hranges.1 (hbegins hb) (by simpa using hc)).stepsOn ?_
              rw [decodeUtf8.eq_def]
              dsimp only [List.cons_append, List.nil_append]
              rw [if_neg hone, if_neg htwo, if_pos ha, if_pos hb, if_neg hc]
      · refine (isInvalid_one hone (by simpa using hno hb)).stepsOn ?_
        rw [decodeUtf8.eq_def]
        dsimp only [List.cons_append, List.nil_append]
        rw [if_neg hone, if_neg htwo, if_pos ha]
        cases r with
        | _ => exact if_neg hb

theorem stepsOn_four (ha : between 0xf0 0xf4 a = true) (r : Bytes) : StepsOn (a :: r) := by
  have hranges := between_iff.mp ha
  simp only [UInt8.reduceToNat] at hranges
  have htwo : ¬between 0xc2 0xdf a = true := by
    simp only [between_iff, UInt8.reduceToNat]
    omega
  have hthree : ¬between 0xe0 0xef a = true := by
    simp only [between_iff, UInt8.reduceToNat]
    omega
  have hbegins : ∀ {b}, secondOfFour a b = true → Begins [a, b] := fun hb =>
    @IsSequence.begins _ [0x80, 0x80] _ (.four ha hb (by decide) (by decide))
  have hbegins' : ∀ {b c}, secondOfFour a b = true → isContinuation c = true → Begins [a, b, c] :=
    fun hb hc => @IsSequence.begins _ [0x80] _ (.four ha hb hc (by decide))
  have hno : ∀ {b}, ¬secondOfFour a b = true → ¬Begins [a, b] := by
    intro b hb hbegins
    rcases hbegins.second with ⟨h, -⟩ | ⟨h, -⟩ | ⟨-, h⟩
    · exact htwo h
    · exact hthree h
    · exact hb h
  have hlead : 0xe0 ≤ a.toNat := by omega
  cases r with
  | nil =>
      refine (isInvalid_one hone (by simp)).stepsOn (r := []) ?_
      rw [decodeUtf8.eq_def]
      dsimp only [List.cons_append, List.nil_append]
      rw [if_neg hone, if_neg htwo, if_neg hthree, if_pos ha]
      rfl
  | cons b r =>
      by_cases hb : secondOfFour a b = true
      · cases r with
        | nil =>
            refine (isInvalid_two hlead (hbegins hb) (by simp)).stepsOn (r := []) ?_
            rw [decodeUtf8.eq_def]
            dsimp only [List.cons_append, List.nil_append]
            rw [if_neg hone, if_neg htwo, if_neg hthree, if_pos ha, if_pos hb]
            rfl
        | cons c r =>
            by_cases hc : isContinuation c = true
            · cases r with
              | nil =>
                  refine (isInvalid_three hranges.1 (hbegins' hb hc) (by simp)).stepsOn
                    (r := []) ?_
                  rw [decodeUtf8.eq_def]
                  dsimp only [List.cons_append, List.nil_append]
                  rw [if_neg hone, if_neg htwo, if_neg hthree, if_pos ha, if_pos hb, if_pos hc]
                  rfl
              | cons d r =>
                  by_cases hd : isContinuation d = true
                  · refine (IsSequence.four ha hb hc hd).stepsOn ?_
                    rw [decodeUtf8.eq_def]
                    dsimp only [List.cons_append, List.nil_append]
                    rw [if_neg hone, if_neg htwo, if_neg hthree, if_pos ha, if_pos hb, if_pos hc,
                      if_pos hd]
                  · refine (isInvalid_three hranges.1 (hbegins' hb hc) (by simpa using hd)).stepsOn
                      ?_
                    rw [decodeUtf8.eq_def]
                    dsimp only [List.cons_append, List.nil_append]
                    rw [if_neg hone, if_neg htwo, if_neg hthree, if_pos ha, if_pos hb, if_pos hc,
                      if_neg hd]
            · refine (isInvalid_two hlead (hbegins hb) (by simpa using hc)).stepsOn ?_
              rw [decodeUtf8.eq_def]
              dsimp only [List.cons_append, List.nil_append]
              rw [if_neg hone, if_neg htwo, if_neg hthree, if_pos ha]
              cases r with
              | _ => dsimp only; rw [if_pos hb, if_neg hc]
      · refine (isInvalid_one hone (by simpa using hno hb)).stepsOn ?_
        rw [decodeUtf8.eq_def]
        dsimp only [List.cons_append, List.nil_append]
        rw [if_neg hone, if_neg htwo, if_neg hthree, if_pos ha]
        rcases r with _ | ⟨c, _ | ⟨d, r⟩⟩
        · exact if_neg hb
        · exact if_neg hb
        · exact if_neg hb

theorem stepsOn_other (htwo : ¬between 0xc2 0xdf a = true) (hthree : ¬between 0xe0 0xef a = true)
    (hfour : ¬between 0xf0 0xf4 a = true) (r : Bytes) : StepsOn (a :: r) := by
  refine (isInvalid_one hone fun b _ hbegins => ?_).stepsOn ?_
  · rcases hbegins.second with ⟨h, -⟩ | ⟨h, -⟩ | ⟨h, -⟩
    · exact htwo h
    · exact hthree h
    · exact hfour h
  · rw [decodeUtf8.eq_def]
    dsimp only [List.cons_append, List.nil_append]
    rw [if_neg hone, if_neg htwo, if_neg hthree, if_neg hfour]

end

/-- Every reading goes on behind a character or behind an invalid sequence. -/
theorem stepsOn_cons (a : UInt8) (r : Bytes) : StepsOn (a :: r) := by
  by_cases hone : a < 0x80
  · refine (IsSequence.one hone).stepsOn (r := r) ?_
    rw [decodeUtf8.eq_def]
    exact if_pos hone
  by_cases htwo : between 0xc2 0xdf a = true
  · exact stepsOn_two hone htwo r
  by_cases hthree : between 0xe0 0xef a = true
  · exact stepsOn_three hone hthree r
  by_cases hfour : between 0xf0 0xf4 a = true
  · exact stepsOn_four hone hfour r
  · exact stepsOn_other hone htwo hthree hfour r

/-! ## The only reading -/

theorem decodes_decodeUtf8 (x : Bytes) : Decodes x (decodeUtf8 x) := by
  induction hlength : x.length using Nat.strongRecOn generalizing x with
  | _ length ih =>
      cases x with
      | nil =>
          rw [decodeUtf8]
          exact .nil
      | cons a r =>
          rcases stepsOn_cons a r with
            ⟨c, rest, hsplit, hdecode⟩ | ⟨bytes, rest, hsplit, hinvalid, hdecode⟩
          · rw [hdecode]
            rw [hsplit] at hlength ⊢
            refine .char c (ih rest.length ?_ rest rfl)
            have hpos := List.length_pos_iff.mpr (utf8EncodeChar_ne_nil c)
            rw [← hlength, List.length_append]
            omega
          · rw [hdecode]
            rw [hsplit] at hlength ⊢
            refine .invalid hinvalid (ih rest.length ?_ rest rfl)
            have hpos := List.length_pos_iff.mpr hinvalid.ne_nil
            rw [← hlength, List.length_append]
            omega

theorem IsInvalid.begins_of_lt {bytes rest : Bytes} {more : Bytes}
    (hinvalid : IsInvalid (bytes ++ more) rest) (hbytes : bytes ≠ []) {b : UInt8}
    (hmore : more.head? = some b) : Begins (bytes ++ [b]) := by
  cases more with
  | nil => cases hmore
  | cons b more =>
      cases hmore
      have hpos := List.length_pos_iff.mpr hbytes
      obtain ⟨c, hc⟩ := hinvalid.begins (by
        rw [List.length_append, List.length_cons]
        omega)
      exact ⟨c, List.IsPrefix.trans ⟨more, by simp⟩ hc⟩

/-- Where nothing is encoded, the invalid sequence is told by the bytes. -/
theorem IsInvalid.unique {bytes rest bytes' rest' : Bytes} (hinvalid : IsInvalid bytes rest)
    (hinvalid' : IsInvalid bytes' rest') (heq : bytes ++ rest = bytes' ++ rest') :
    bytes = bytes' ∧ rest = rest' := by
  rcases List.append_eq_append_iff.mp heq with ⟨more, hbytes, hrest⟩ | ⟨more, hbytes, hrest⟩
  · cases more with
    | nil => simp_all
    | cons b more =>
        subst hbytes hrest
        exact absurd (hinvalid'.begins_of_lt hinvalid.ne_nil rfl) (hinvalid.longest b rfl)
  · cases more with
    | nil => simp_all
    | cons b more =>
        subst hbytes hrest
        exact absurd (hinvalid.begins_of_lt hinvalid'.ne_nil rfl) (hinvalid'.longest b rfl)

/-- There is one reading of bytes. -/
theorem Decodes.eq_decodeUtf8 {x : Bytes} {s : List Char} (hdecodes : Decodes x s) :
    s = decodeUtf8 x := by
  induction hdecodes with
  | nil => rw [decodeUtf8]
  | @char c rest s _ ih =>
      cases hx : utf8EncodeChar c ++ rest with
      | nil => exact absurd (List.append_eq_nil_iff.mp hx).1 (utf8EncodeChar_ne_nil c)
      | cons a r =>
          rcases stepsOn_cons a r with
            ⟨d, rest', hsplit, hdecode⟩ | ⟨bytes, rest', hsplit, hinvalid, hdecode⟩
          · obtain ⟨rfl, rfl⟩ := utf8EncodeChar_append_inj (hx.trans hsplit)
            rw [hdecode, ih]
          · exact absurd ⟨rest, hx.trans hsplit⟩ (hinvalid.none c)
  | @invalid bytes rest s hinvalid _ ih =>
      cases hx : bytes ++ rest with
      | nil => exact absurd (List.append_eq_nil_iff.mp hx).1 hinvalid.ne_nil
      | cons a r =>
          rcases stepsOn_cons a r with
            ⟨d, rest', hsplit, hdecode⟩ | ⟨bytes', rest', hsplit, hinvalid', hdecode⟩
          · exact absurd ⟨rest', (hx.trans hsplit).symm⟩ (hinvalid.none d)
          · obtain ⟨-, rfl⟩ := hinvalid.unique hinvalid' (hx.trans hsplit)
            rw [hdecode, ih]

theorem decodes_iff {x : Bytes} {s : List Char} : Decodes x s ↔ s = decodeUtf8 x :=
  ⟨Decodes.eq_decodeUtf8, fun hs => hs ▸ decodes_decodeUtf8 x⟩

/-! ## Valid text behind other bytes -/

theorem decodes_encode (s : List Char) : Decodes (encode s) s := by
  induction s with
  | nil => exact .nil
  | cons c s ih => exact .char c ih

/-- The first byte of a text does not continue a sequence. -/
theorem isContinuation_head?_encode {s : List Char} {b : UInt8}
    (hb : (encode s).head? = some b) : isContinuation b = false := by
  cases s with
  | nil => cases hb
  | cons c s =>
      obtain ⟨n, hsequence, -⟩ := isSequence_utf8EncodeChar c
      have hencode : encode (c :: s) = utf8EncodeChar c ++ encode s := rfl
      rw [hencode] at hb
      cases hbytes : utf8EncodeChar c with
      | nil => exact absurd hbytes (utf8EncodeChar_ne_nil c)
      | cons a tail =>
          rw [hbytes] at hb hsequence
          cases hb
          have hlength := hsequence.length_tail
          rw [Bool.eq_false_iff, ne_eq, isContinuation_iff]
          omega

/-- An invalid sequence ends before a text that follows. -/
theorem IsInvalid.append_encode {bytes rest : Bytes} (hinvalid : IsInvalid bytes rest)
    (s : List Char) : IsInvalid bytes (rest ++ encode s) := by
  have hlongest : ∀ b ∈ (rest ++ encode s).head?, ¬Begins (bytes ++ [b]) := by
    intro b hb hbegins
    cases rest with
    | nil =>
        have hno := isContinuation_head?_encode (s := s) hb
        cases bytes with
        | nil => exact hinvalid.ne_nil rfl
        | cons a tail =>
            rw [hbegins.continues] at hno
            cases hno
    | cons other rest => exact hinvalid.longest b hb hbegins
  refine ⟨hinvalid.ne_nil, fun c hc => ?_, hinvalid.begins, hlongest⟩
  rcases List.prefix_or_prefix_of_prefix hc (List.prefix_append bytes _) with
    hshort | ⟨more, hmore⟩
  · exact hinvalid.none c (hshort.trans (List.prefix_append bytes rest))
  · cases more with
    | nil =>
        rw [List.append_nil] at hmore
        exact hinvalid.none c (hmore ▸ List.prefix_append bytes rest)
    | cons b more =>
        -- a character that takes more would continue the invalid sequence
        rw [← hmore, List.prefix_append_right_inj] at hc
        obtain ⟨behind, hbehind⟩ := hc
        refine hlongest b ?_ ⟨c, more, by simp [← hmore]⟩
        rw [← hbehind]
        rfl

theorem Decodes.append_encode {x : Bytes} {t : List Char} (hdecodes : Decodes x t)
    (s : List Char) : Decodes (x ++ encode s) (t ++ s) := by
  induction hdecodes with
  | nil => exact decodes_encode s
  | char c _ ih =>
      rw [List.append_assoc]
      exact .char c ih
  | invalid hinvalid _ ih =>
      rw [List.append_assoc]
      exact .invalid (hinvalid.append_encode s) ih

theorem decodeUtf8_append_encode (x : Bytes) (s : List Char) :
    decodeUtf8 (x ++ encode s) = decodeUtf8 x ++ s :=
  ((decodes_decodeUtf8 x).append_encode s).eq_decodeUtf8.symm

theorem unifyLineEnds_of_not_mem {s : List Char} (hreturn : '\r' ∉ s) : unifyLineEnds s = s := by
  induction s with
  | nil => rfl
  | cons c s ih =>
      rw [List.mem_cons, not_or] at hreturn
      rw [unifyLineEnds, if_neg (Ne.symm hreturn.1), ih hreturn.2]
      rintro r rfl
      exact absurd rfl hreturn.1

/-- The line ends of a text are unified apart from those of the text before it. -/
theorem unifyLineEnds_append (t : List Char) {s : List Char} (hreturn : '\r' ∉ s)
    (hfeed : s.head? ≠ some '\n') : unifyLineEnds (t ++ s) = unifyLineEnds t ++ s := by
  induction t using unifyLineEnds.induct with
  | case1 => exact unifyLineEnds_of_not_mem hreturn
  | case2 r ih =>
      rw [List.cons_append, List.cons_append, unifyLineEnds, unifyLineEnds, ih, List.cons_append]
  | case3 c r hpair ih =>
      rw [List.cons_append, unifyLineEnds, unifyLineEnds, ih, List.cons_append]
      · exact hpair
      · rintro rest rfl hrest
        cases r with
        | nil =>
            rw [List.nil_append] at hrest
            exact hfeed (by rw [hrest]; rfl)
        | cons x r =>
            rw [List.cons_append] at hrest
            obtain ⟨rfl, -⟩ := List.cons.inj hrest
            exact hpair r rfl rfl

/-- A text without carriage returns is read back. -/
theorem decode_encode {s : List Char} (hreturn : '\r' ∉ s) : decode (encode s) = s := by
  rw [decode, ← (decodes_encode s).eq_decodeUtf8, unifyLineEnds_of_not_mem hreturn]

/-- Whatever bytes stand before it, a text is read as it is, unless a carriage return before it goes
with a line feed that it begins with. -/
theorem decode_append_encode (x : Bytes) {s : List Char} (hreturn : '\r' ∉ s)
    (hfeed : s.head? ≠ some '\n') : decode (x ++ encode s) = decode x ++ s := by
  rw [decode, decodeUtf8_append_encode, unifyLineEnds_append _ hreturn hfeed, decode]

end BuildRunner.Text
