import BuildRunner.Failure
import BuildRunner.Proofs.Message.Conversions

/-!
# Messages of aborted operations

A format is filled in from the left to the right.  It is filled in completely, or one of its
conversions runs out of a range, or it does not fit its values.  An operation is aborted with the
text that is filled in, or with the text and the values behind it where they do not fit.  Only a
range that is run out of, or a value that cannot be written, leads to another failure.
-/

namespace BuildRunner.Message

/-! ## Filled formats -/

/-- A format is filled in with all of some values. -/
inductive Fills : List Char → List Value → List Char → Prop
  | nil : Fills [] [] []
  | plain {c format values written} :
      c ≠ '%' → Fills format values written → Fills (c :: format) values (c :: written)
  | percent {format values written} :
      Fills format values written → Fills ('%' :: '%' :: format) values ('%' :: written)
  | conversion {spec used conversion letter v head format values written} :
      Specified spec used conversion letter → convert conversion letter v = .ok head →
        Fills format values written →
          Fills ('%' :: (spec ++ format)) (used ++ v :: values) (head ++ written)

/-- A format is filled in up to a conversion that runs out of a range. -/
inductive RunsOver : List Char → List Value → RangeError → Prop
  | here {format values cause} :
      Overruns format values cause → RunsOver ('%' :: format) values cause
  | plain {c format values cause} :
      c ≠ '%' → RunsOver format values cause → RunsOver (c :: format) values cause
  | percent {format values cause} :
      RunsOver format values cause → RunsOver ('%' :: '%' :: format) values cause
  | conversion {spec used conversion letter v head format values cause} :
      Specified spec used conversion letter → convert conversion letter v = .ok head →
        RunsOver format values cause →
          RunsOver ('%' :: (spec ++ format)) (used ++ v :: values) cause

theorem fillOne_percent (r : List Char) (values : List Value) :
    fillOne ('%' :: r) values = .error .mismatch := by
  cases values <;> rfl

section

variable {fuel : Nat} {c : Char} {format written : List Char} {values : List Value}
  {cause : RangeError}

theorem fillFrom_plain (hc : c ≠ '%') :
    fillFrom (fuel + 1) (c :: format) values = (fillFrom fuel format values).map (c :: ·) := by
  have hunfold : fillFrom (fuel + 1) (c :: format) values =
      fillFrom fuel format values >>= fun written => .ok (c :: written) := by
    conv_lhs => unfold fillFrom
    exact if_neg hc
  rw [hunfold]
  cases fillFrom fuel format values <;> rfl

theorem fillFrom_percent :
    fillFrom (fuel + 1) ('%' :: '%' :: format) values =
      (fillFrom fuel format values).map ('%' :: ·) := by
  rw [fillFrom, if_pos rfl]
  cases fillFrom fuel format values <;> rfl

theorem fillFrom_conversion (hformat : ∀ r, format ≠ '%' :: r) :
    fillFrom (fuel + 1) ('%' :: format) values =
      fillOne format values >>= fun (head, rest, left) =>
        (fillFrom fuel rest left).map (head ++ ·) := by
  rw [fillFrom, if_pos rfl]
  · cases fillOne format values with
    | error e => rfl
    | ok filled =>
        obtain ⟨head, rest, left⟩ := filled
        show (fillFrom fuel rest left >>= _) = (fillFrom fuel rest left).map (head ++ ·)
        cases fillFrom fuel rest left <;> rfl
  · exact hformat

/-! ### The parts of a filled format -/

theorem fills_nil_iff : Fills [] values written ↔ values = [] ∧ written = [] := by
  constructor
  · rintro ⟨⟩
    exact ⟨rfl, rfl⟩
  · rintro ⟨rfl, rfl⟩
    exact .nil

theorem fills_plain_iff (hc : c ≠ '%') :
    Fills (c :: format) values written ↔ ∃ w, Fills format values w ∧ c :: w = written := by
  constructor
  · rintro (_ | ⟨-, h⟩ | _ | _)
    · exact ⟨_, h, rfl⟩
    · exact absurd rfl hc
    · exact absurd rfl hc
  · rintro ⟨w, h, rfl⟩
    exact .plain hc h

/-- A conversion does not begin with another percent sign. -/
theorem Specified.ne_percent {spec rest : List Char} {used : List Value} {v : Value}
    {conversion : Conversion} {letter : Char} {head : List Char}
    (hspec : Specified spec used conversion letter)
    (hconvert : convert conversion letter v = .ok head) (r : List Char) :
    spec ++ rest ≠ '%' :: r := by
  intro h
  have hfilled : fillOne (spec ++ rest) (used ++ [v]) = .ok (head, rest, []) :=
    fillOne_ok_iff.mpr ⟨spec, used, conversion, letter, v, rfl, rfl, hspec, hconvert⟩
  rw [h, fillOne_percent] at hfilled
  cases hfilled

theorem Overruns.ne_percent (h : Overruns format values cause) (r : List Char) :
    format ≠ '%' :: r := by
  rintro rfl
  have hrange := fillOne_range_iff.mpr h
  rw [fillOne_percent] at hrange
  cases hrange

theorem fills_percent_iff :
    Fills ('%' :: '%' :: format) values written ↔
      ∃ w, Fills format values w ∧ '%' :: w = written := by
  constructor
  · intro h
    generalize hs : '%' :: '%' :: format = s at h
    cases h with
    | nil => cases hs
    | plain hc h => exact absurd (List.cons.inj hs).1.symm hc
    | percent h =>
        cases hs
        exact ⟨_, h, rfl⟩
    | conversion hspec hconvert h =>
        exact absurd (List.cons.inj hs).2.symm (hspec.ne_percent hconvert _)
  · rintro ⟨w, h, rfl⟩
    exact .percent h

theorem fills_conversion_iff (hformat : ∀ r, format ≠ '%' :: r) :
    Fills ('%' :: format) values written ↔
      ∃ head rest left w, fillOne format values = .ok (head, rest, left) ∧ Fills rest left w ∧
        head ++ w = written := by
  simp only [fillOne_ok_iff]
  constructor
  · intro h
    generalize hs : '%' :: format = s at h
    cases h with
    | nil => cases hs
    | plain hc h => exact absurd (List.cons.inj hs).1.symm hc
    | percent h => exact absurd (List.cons.inj hs).2 (hformat _)
    | conversion hspec hconvert h =>
        obtain rfl := (List.cons.inj hs).2
        exact ⟨_, _, _, _, ⟨_, _, _, _, _, rfl, rfl, hspec, hconvert⟩, h, rfl⟩
  · rintro ⟨head, rest, left, w, ⟨_, _, _, _, _, rfl, rfl, hspec, hconvert⟩, h, rfl⟩
    exact .conversion hspec hconvert h

theorem runsOver_nil : ¬RunsOver [] values cause := by
  rintro ⟨⟩

theorem runsOver_plain_iff (hc : c ≠ '%') :
    RunsOver (c :: format) values cause ↔ RunsOver format values cause := by
  constructor
  · rintro (_ | ⟨-, h⟩ | _ | _)
    · exact absurd rfl hc
    · exact h
    · exact absurd rfl hc
    · exact absurd rfl hc
  · exact .plain hc

theorem runsOver_percent_iff :
    RunsOver ('%' :: '%' :: format) values cause ↔ RunsOver format values cause := by
  constructor
  · intro h
    generalize hs : '%' :: '%' :: format = s at h
    cases h with
    | here h => exact absurd (List.cons.inj hs).2.symm (h.ne_percent _)
    | plain hc h => exact absurd (List.cons.inj hs).1.symm hc
    | percent h =>
        cases hs
        exact h
    | conversion hspec hconvert h =>
        exact absurd (List.cons.inj hs).2.symm (hspec.ne_percent hconvert _)
  · exact .percent

theorem runsOver_conversion_iff (hformat : ∀ r, format ≠ '%' :: r) :
    RunsOver ('%' :: format) values cause ↔
      fillOne format values = .error (.range cause) ∨
        ∃ head rest left, fillOne format values = .ok (head, rest, left) ∧
          RunsOver rest left cause := by
  simp only [fillOne_ok_iff, fillOne_range_iff]
  constructor
  · intro h
    generalize hs : '%' :: format = s at h
    cases h with
    | here h =>
        obtain rfl := (List.cons.inj hs).2
        exact Or.inl h
    | plain hc h => exact absurd (List.cons.inj hs).1.symm hc
    | percent h => exact absurd (List.cons.inj hs).2 (hformat _)
    | conversion hspec hconvert h =>
        obtain rfl := (List.cons.inj hs).2
        exact Or.inr ⟨_, _, _, ⟨_, _, _, _, _, rfl, rfl, hspec, hconvert⟩, h⟩
  · rintro (h | ⟨head, rest, left, ⟨_, _, _, _, _, rfl, rfl, hspec, hconvert⟩, h⟩)
    · exact .here h
    · exact .conversion hspec hconvert h

theorem map_eq_ok_iff {α β ε : Type} {x : Except ε α} {f : α → β} {b : β} :
    x.map f = .ok b ↔ ∃ a, x = .ok a ∧ f a = b := by
  cases x <;> simp [Except.map]

theorem map_eq_error_iff {α β ε : Type} {x : Except ε α} {f : α → β} {e : ε} :
    x.map f = .error e ↔ x = .error e := by
  cases x <;> simp [Except.map]

theorem fillFrom_nil (fuel : Nat) (values : List Value) :
    fillFrom fuel [] values = if values.isEmpty then .ok [] else .error .mismatch := by
  cases values <;> cases fuel <;> rfl

/-- A format is filled in, or runs out of a range, at the first conversion or behind it. -/
theorem fillFrom_iff (fuel : Nat) (hfuel : format.length ≤ fuel) :
    (∀ written, fillFrom fuel format values = .ok written ↔ Fills format values written) ∧
      ∀ cause, fillFrom fuel format values = .error (.range cause) ↔
        RunsOver format values cause := by
  induction fuel generalizing format values with
  | zero =>
      obtain rfl := List.length_eq_zero_iff.mp (Nat.le_zero.mp hfuel)
      rw [fillFrom_nil]
      cases values <;> simp [fills_nil_iff, runsOver_nil, eq_comm]
  | succ fuel ih =>
      cases format with
      | nil =>
          rw [fillFrom_nil]
          cases values <;> simp [fills_nil_iff, runsOver_nil, eq_comm]
      | cons c format =>
          have hlength : format.length ≤ fuel := Nat.le_of_succ_le_succ hfuel
          by_cases hc : c = '%'
          · subst hc
            by_cases hpercent : ∃ r, format = '%' :: r
            · obtain ⟨r, rfl⟩ := hpercent
              obtain ⟨hok, hrange⟩ := @ih r values (Nat.le_of_succ_le hlength)
              rw [fillFrom_percent]
              simp only [map_eq_ok_iff, map_eq_error_iff, hok, hrange, fills_percent_iff,
                runsOver_percent_iff, implies_true, and_self]
            · rw [not_exists] at hpercent
              rw [fillFrom_conversion hpercent]
              simp only [fills_conversion_iff hpercent, runsOver_conversion_iff hpercent]
              cases hfilled : fillOne format values with
              | error e => simp [bind, Except.bind]
              | ok filled =>
                  obtain ⟨head, rest, left⟩ := filled
                  obtain ⟨spec, used, _, _, v, rfl, -⟩ := fillOne_ok_iff.mp hfilled
                  have hshorter : rest.length ≤ fuel := by
                    rw [List.length_append] at hlength
                    omega
                  obtain ⟨hok, hrange⟩ := @ih rest left hshorter
                  show (∀ written, (fillFrom fuel rest left).map (head ++ ·) = .ok written ↔ _) ∧
                    ∀ cause, (fillFrom fuel rest left).map (head ++ ·) = .error (.range cause) ↔ _
                  simp [map_eq_ok_iff, map_eq_error_iff, hok, hrange]
          · obtain ⟨hok, hrange⟩ := @ih format values hlength
            rw [fillFrom_plain hc]
            simp only [map_eq_ok_iff, map_eq_error_iff, hok, hrange, fills_plain_iff hc,
              runsOver_plain_iff hc, implies_true, and_self]

end

theorem fill_eq (text : String) (values : List Value) :
    fill text values = (fillFrom text.length text.toList values).map String.ofList := by
  unfold fill
  cases fillFrom text.length text.toList values <;> rfl

theorem fill_ok_iff {text s : String} {values : List Value} :
    fill text values = .ok s ↔ Fills text.toList values s.toList := by
  have hfilled :=
    (@fillFrom_iff text.toList values text.length (le_of_eq String.length_toList)).1
  rw [fill_eq, map_eq_ok_iff]
  simp only [hfilled]
  constructor
  · rintro ⟨written, h, rfl⟩
    rwa [String.toList_ofList]
  · exact fun h => ⟨_, h, String.ofList_toList⟩

theorem fill_range_iff {text : String} {values : List Value} {cause : RangeError} :
    fill text values = .error (.range cause) ↔ RunsOver text.toList values cause := by
  rw [fill_eq, map_eq_error_iff]
  exact (fillFrom_iff _ (le_of_eq String.length_toList)).2 cause

/-! ## Values that can be written -/

namespace Value

mutual

/-- The number of values of which each holds the next one. -/
def nesting : Value → Nat
  | .list items => nestingAmong items + 1
  | .dict entries => nestingBehind entries + 1
  | _ => 1

def nestingAmong : List Value → Nat
  | [] => 0
  | v :: r => max v.nesting (nestingAmong r)

def nestingBehind : List (String × Value) → Nat
  | [] => 0
  | (_, v) :: r => max v.nesting (nestingBehind r)

end

mutual

/-- The integers that a value holds. -/
def integers : Value → List Int
  | .int n => [n]
  | .list items => integersAmong items
  | .dict entries => integersBehind entries
  | _ => []

def integersAmong : List Value → List Int
  | [] => []
  | v :: r => v.integers ++ integersAmong r

def integersBehind : List (String × Value) → List Int
  | [] => []
  | (_, v) :: r => v.integers ++ integersBehind r

end

mutual

theorem fault?_eq_none_iff (depth : Nat) (v : Value) :
    v.fault? depth = Option.none ↔ v.nesting ≤ depth ∧ ∀ n ∈ v.integers, isLong n = false := by
  cases depth with
  | zero => cases v <;> simp [fault?, nesting]
  | succ depth =>
      cases v with
      | list items =>
          rw [fault?, nesting, integers, faultAmong?_eq_none_iff]
          simp
      | dict entries =>
          rw [fault?, nesting, integers, faultBehind?_eq_none_iff]
          simp
      | _ => simp [fault?, nesting, integers]

theorem faultAmong?_eq_none_iff (depth : Nat) (items : List Value) :
    faultAmong? depth items = Option.none ↔
      nestingAmong items ≤ depth ∧ ∀ n ∈ integersAmong items, isLong n = false := by
  cases items with
  | nil => simp [faultAmong?, nestingAmong, integersAmong]
  | cons v items =>
      rw [faultAmong?, nestingAmong, integersAmong, Option.or_eq_none_iff,
        fault?_eq_none_iff depth v, faultAmong?_eq_none_iff depth items]
      simp only [Nat.max_le, List.mem_append, or_imp, forall_and]
      exact and_and_and_comm

theorem faultBehind?_eq_none_iff (depth : Nat) (entries : List (String × Value)) :
    faultBehind? depth entries = Option.none ↔
      nestingBehind entries ≤ depth ∧ ∀ n ∈ integersBehind entries, isLong n = false := by
  cases entries with
  | nil => simp [faultBehind?, nestingBehind, integersBehind]
  | cons entry entries =>
      obtain ⟨key, v⟩ := entry
      rw [faultBehind?, nestingBehind, integersBehind, Option.or_eq_none_iff,
        fault?_eq_none_iff depth v, faultBehind?_eq_none_iff depth entries]
      simp only [Nat.max_le, List.mem_append, or_imp, forall_and]
      exact and_and_and_comm

end

/-- A value can be written: it is not nested too deep, and its integers are not too long. -/
def IsWritable (v : Value) : Prop :=
  v.nesting ≤ greatestDepth ∧ ∀ n ∈ v.integers, isLong n = false

theorem plain?_of_writable {v : Value} (h : v.IsWritable) : v.plain? = .ok v.plain := by
  unfold plain? plain
  split
  · rfl
  · rw [literal?, (fault?_eq_none_iff _ _).mpr h]

theorem plain?_eq_error_iff {v : Value} {fault : Fault} :
    v.plain? = .error fault ↔ v.fault? greatestDepth = some fault := by
  unfold plain?
  split
  · simp [fault?, greatestDepth]
  · unfold literal?
    cases v.fault? greatestDepth <;> simp

end Value

/-- The first of some values that cannot be written, with what keeps it from that. -/
def FirstFault (values : List Value) (fault : Value.Fault) : Prop :=
  ∃ front v back, values = front ++ v :: back ∧ (∀ u ∈ front, u.IsWritable) ∧
    v.fault? Value.greatestDepth = some fault

/-- The text with the plain form of each value behind it. -/
def listed (text : String) (values : List Value) : String :=
  String.ofList (text.toList ++ values.flatMap fun v => ' ' :: v.plain)

theorem writable_or_firstFault (values : List Value) :
    (∀ v ∈ values, v.IsWritable) ∨ ∃ fault, FirstFault values fault := by
  induction values with
  | nil => exact Or.inl (by simp)
  | cons v values ih =>
      cases hfault : v.fault? Value.greatestDepth with
      | some fault => exact Or.inr ⟨fault, [], v, values, rfl, by simp, hfault⟩
      | none =>
          have hv : v.IsWritable := (Value.fault?_eq_none_iff _ _).mp hfault
          obtain hall | ⟨fault, front, u, back, rfl, hfront, hu⟩ := ih
          · exact Or.inl (List.forall_mem_cons.mpr ⟨hv, hall⟩)
          · exact Or.inr
              ⟨fault, v :: front, u, back, rfl, List.forall_mem_cons.mpr ⟨hv, hfront⟩, hu⟩

theorem mapM_plain?_of_writable {values : List Value} (h : ∀ v ∈ values, v.IsWritable) :
    values.mapM Value.plain? = .ok (values.map Value.plain) := by
  induction values with
  | nil => rfl
  | cons v values ih =>
      obtain ⟨hv, hvalues⟩ := List.forall_mem_cons.mp h
      rw [List.mapM_cons, Value.plain?_of_writable hv, ih hvalues]
      rfl

theorem mapM_plain?_of_firstFault {values : List Value} {fault : Value.Fault}
    (h : FirstFault values fault) : values.mapM Value.plain? = .error fault := by
  obtain ⟨front, v, back, rfl, hfront, hv⟩ := h
  rw [List.mapM_append, mapM_plain?_of_writable hfront, List.mapM_cons,
    Value.plain?_eq_error_iff.mpr hv]
  rfl

theorem foldl_words (words : List (List Char)) (s : List Char) :
    words.foldl (fun s word => s ++ ' ' :: word) s = s ++ words.flatMap (' ' :: ·) := by
  induction words generalizing s with
  | nil => simp
  | cons word words ih => simp [ih]

theorem spaced_of_writable (text : String) {values : List Value}
    (h : ∀ v ∈ values, v.IsWritable) : spaced text values = .ok (listed text values) := by
  unfold spaced
  rw [mapM_plain?_of_writable h]
  show Except.ok (String.ofList _) = _
  rw [foldl_words, List.flatMap_map]
  rfl

theorem spaced_of_firstFault (text : String) {values : List Value} {fault : Value.Fault}
    (h : FirstFault values fault) : spaced text values = .error fault := by
  unfold spaced
  rw [mapM_plain?_of_firstFault h]
  rfl

/-! ## Aborted operations -/

/-- A format that neither can be filled in with some values nor runs out of a range. -/
def Misfits (format : List Char) (values : List Value) : Prop :=
  (∀ written, ¬Fills format values written) ∧ ∀ cause, ¬RunsOver format values cause

/-- The message that a text and values make. -/
inductive Composed (text : String) : List Value → String → Prop
  | bare : Composed text [] text
  | filled {values message} :
      values ≠ [] → Fills text.toList values message.toList → Composed text values message
  | listed {values} :
      values ≠ [] → Misfits text.toList values → (∀ v ∈ values, v.IsWritable) →
        Composed text values (listed text values)

/-- What keeps a text and values from making a message. -/
inductive Uncomposed (text : String) : List Value → RangeError → Prop
  | range {values cause} :
      values ≠ [] → RunsOver text.toList values cause → Uncomposed text values cause
  | unwritten {values fault} :
      values ≠ [] → Misfits text.toList values → FirstFault values fault →
        Uncomposed text values (.unwritten fault)

section

variable {text : String} {values : List Value}

theorem fill_of_misfits (h : Misfits text.toList values) : fill text values = .error .mismatch := by
  cases hfill : fill text values with
  | ok s => exact absurd (fill_ok_iff.mp hfill) (h.1 _)
  | error e =>
      cases e with
      | mismatch => rfl
      | range cause => exact absurd (fill_range_iff.mp hfill) (h.2 cause)

theorem compose_of_composed {message : String} (h : Composed text values message) :
    compose text values = .ok message := by
  unfold compose
  obtain _ | ⟨hne, hfills⟩ | ⟨hne, hmisfits, hwritable⟩ := h
  · rfl
  · rw [if_neg (by simpa using hne), fill_ok_iff.mpr hfills]
  · rw [if_neg (by simpa using hne), fill_of_misfits hmisfits]
    exact congrArg (Except.mapError _) (spaced_of_writable text hwritable)

theorem compose_of_uncomposed {cause : RangeError} (h : Uncomposed text values cause) :
    compose text values = .error cause := by
  unfold compose
  obtain ⟨hne, hruns⟩ | ⟨hne, hmisfits, hfirst⟩ := h
  · rw [if_neg (by simpa using hne), fill_range_iff.mpr hruns]
  · rw [if_neg (by simpa using hne), fill_of_misfits hmisfits]
    exact congrArg (Except.mapError _) (spaced_of_firstFault text hfirst)

/-- A text and values make a message, or something keeps them from that. -/
theorem composed_or_uncomposed (text : String) (values : List Value) :
    (∃ message, Composed text values message) ∨ ∃ cause, Uncomposed text values cause := by
  by_cases hempty : values = []
  · subst hempty
    exact Or.inl ⟨text, .bare⟩
  cases hfill : fill text values with
  | ok s => exact Or.inl ⟨s, .filled hempty (fill_ok_iff.mp hfill)⟩
  | error e =>
      cases e with
      | range cause => exact Or.inr ⟨cause, .range hempty (fill_range_iff.mp hfill)⟩
      | mismatch =>
          have hmisfits : Misfits text.toList values := by
            refine ⟨fun written h => ?_, fun cause h => ?_⟩
            · have hok : fill text values = .ok (String.ofList written) :=
                fill_ok_iff.mpr (by rwa [String.toList_ofList])
              rw [hfill] at hok
              cases hok
            · have hrange := fill_range_iff.mpr h
              rw [hfill] at hrange
              cases hrange
          obtain hwritable | ⟨fault, hfirst⟩ := writable_or_firstFault values
          · exact Or.inl ⟨_, .listed hempty hmisfits hwritable⟩
          · exact Or.inr ⟨_, .unwritten hempty hmisfits hfirst⟩

end

end BuildRunner.Message

namespace BuildRunner

open Message

/-- An operation is aborted with the message that its text and its values make, exactly if they make
one.  It fails otherwise for what keeps them from that. -/
theorem Failure.ofAbort_iff (text : String) (values : List Value) :
    (∀ message, Failure.ofAbort (some text) values = .aborted message ↔
      Composed text values message) ∧
    (∀ cause, Failure.ofAbort (some text) values = .outOfRange cause ↔
      Uncomposed text values cause) ∧
    ((∃ message, Composed text values message) ∨ ∃ cause, Uncomposed text values cause) := by
  have hcomposed : ∀ {message}, Composed text values message →
      Failure.ofAbort (some text) values = .aborted message := by
    intro message h
    rw [Failure.ofAbort, compose_of_composed h]
  have huncomposed : ∀ {cause}, Uncomposed text values cause →
      Failure.ofAbort (some text) values = .outOfRange cause := by
    intro cause h
    rw [Failure.ofAbort, compose_of_uncomposed h]
  have hone := composed_or_uncomposed text values
  refine ⟨fun message => ⟨fun h => ?_, hcomposed⟩, fun cause => ⟨fun h => ?_, huncomposed⟩, hone⟩
  · obtain ⟨other, hother⟩ | ⟨cause, hcause⟩ := hone
    · rw [hcomposed hother] at h
      cases h
      exact hother
    · rw [huncomposed hcause] at h
      cases h
  · obtain ⟨message, hmessage⟩ | ⟨other, hother⟩ := hone
    · rw [hcomposed hmessage] at h
      cases h
    · rw [huncomposed hother] at h
      cases h
      exact hother

/-- An operation that is aborted with an infinite number for an integer fails for that. -/
theorem Failure.ofAbort_infinity :
    Failure.ofAbort (some "%d") [.float (.infinite false)] = .outOfRange .infinityToInt := by
  rfl

end BuildRunner
