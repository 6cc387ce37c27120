import BuildRunner.Proofs.Execution.Preparing
import BuildRunner.Proofs.Number.Literals

/-!
# Poll intervals

A variable of the environment asks for the interval between two polls.  Its text is refused unless
it denotes a number that is not below zero.  What is accepted need not be finite: a task that
suspends for an infinite interval is not resumed.
-/

namespace BuildRunner

open BuildRunner.Number

/-- The text that asks for a poll interval, which is not blank. -/
def Environment.AsksInterval (environment : Environment) (raw : String) : Prop :=
  environment.lookup intervalVariable = some raw ∧ Text.trim raw.toList ≠ []

theorem Environment.AsksInterval.unique {environment : Environment} {raw other : String}
    (hraw : environment.AsksInterval raw) (hother : environment.AsksInterval other) :
    raw = other :=
  Option.some.inj (hraw.1.symm.trans hother.1)

theorem isFinite_defaultInterval : defaultInterval.isFinite = true := by
  decide

theorem isNegative_defaultInterval : defaultInterval.isNegative = false := by
  decide

/-! ## Refused and accepted texts -/

/-- A text is refused, as no number or as one below zero, or the number that it denotes is taken. -/
theorem pollInterval_some {raw : String} (hraw : Text.trim raw.toList ≠ []) :
    (pollInterval (some raw) = .error (.pollNotNumber raw) ∧
        ∀ quantity, ¬Denotes raw.toList quantity) ∨
      ∃ quantity, Denotes raw.toList quantity ∧
        ((pollInterval (some raw) = .error (.pollNegative raw) ∧ quantity.IsNegative) ∨
          (pollInterval (some raw) = .ok quantity.rounded ∧ ¬quantity.IsNegative)) := by
  unfold pollInterval
  dsimp only
  rw [if_neg (by simpa using hraw)]
  cases hread : Binary64.ofString? raw with
  | none =>
      refine Or.inl ⟨rfl, fun quantity hdenotes => ?_⟩
      have hsome := ofString?_eq_some_iff.mpr ⟨quantity, hdenotes, rfl⟩
      rw [hread] at hsome
      cases hsome
  | some x =>
      obtain ⟨quantity, hdenotes, rfl⟩ := ofString?_eq_some_iff.mp hread
      have hsign := quantity.isNegative_rounded
      cases hnegative : quantity.rounded.isNegative with
      | true => exact Or.inr ⟨quantity, hdenotes, Or.inl ⟨by simp [hnegative], hsign.mp hnegative⟩⟩
      | false =>
          refine Or.inr ⟨quantity, hdenotes, Or.inr ⟨by simp [hnegative], fun h => ?_⟩⟩
          rw [hsign.mpr h] at hnegative
          cases hnegative

theorem pollInterval_of_not_asked {environment : Environment}
    (hnone : ∀ raw, ¬environment.AsksInterval raw) :
    pollInterval (environment.lookup intervalVariable) = .ok defaultInterval := by
  cases hlookup : environment.lookup intervalVariable with
  | none => rfl
  | some raw =>
      have hblank : Text.trim raw.toList = [] := by
        by_contra hraw
        exact hnone raw ⟨hlookup, hraw⟩
      simp [pollInterval, hblank]

/-- The settings are read if the poll interval is. -/
theorem Settings.read_cases (environment : Environment) :
    ((∀ raw, ¬environment.AsksInterval raw) ∧ ∃ settings,
        Settings.read environment = .ok settings ∧ settings.pollInterval = defaultInterval) ∨
      ∃ raw, environment.AsksInterval raw ∧
        ((Settings.read environment = .error (.pollNotNumber raw) ∧
            ∀ quantity, ¬Denotes raw.toList quantity) ∨
          ∃ quantity, Denotes raw.toList quantity ∧
            ((Settings.read environment = .error (.pollNegative raw) ∧ quantity.IsNegative) ∨
              ∃ settings, Settings.read environment = .ok settings ∧
                settings.pollInterval = quantity.rounded ∧ ¬quantity.IsNegative)) := by
  have herror : ∀ {failure}, BuildRunner.pollInterval (environment.lookup intervalVariable) =
      .error failure → Settings.read environment = .error failure := by
    intro failure h
    simp [Settings.read, h, bind, Except.bind]
  have hok : ∀ {interval}, BuildRunner.pollInterval (environment.lookup intervalVariable) =
      .ok interval → ∃ settings, Settings.read environment = .ok settings ∧
        settings.pollInterval = interval := by
    intro interval h
    simp [Settings.read, h, bind, Except.bind]
  by_cases hasks : ∃ raw, environment.AsksInterval raw
  · obtain ⟨raw, hraw⟩ := hasks
    rw [hraw.1] at herror hok
    refine Or.inr ⟨raw, hraw, ?_⟩
    obtain ⟨h, hnone⟩ | ⟨quantity, hdenotes, ⟨h, hsign⟩ | ⟨h, hsign⟩⟩ := pollInterval_some hraw.2
    · exact Or.inl ⟨herror h, hnone⟩
    · exact Or.inr ⟨quantity, hdenotes, Or.inl ⟨herror h, hsign⟩⟩
    · obtain ⟨settings, hread, hinterval⟩ := hok h
      exact Or.inr ⟨quantity, hdenotes, Or.inr ⟨settings, hread, hinterval, hsign⟩⟩
  · rw [not_exists] at hasks
    exact Or.inl ⟨hasks, hok (pollInterval_of_not_asked hasks)⟩

/-- An accepted interval has no delay in milliseconds exactly if it is infinite. -/
theorem Settings.pollDelay_eq_none_iff {settings : Settings}
    (hsign : settings.pollInterval.isNegative = false) :
    settings.pollDelay = none ↔
      settings.pollInterval.isFinite = false ∧ settings.pollInterval ≠ .nan := by
  unfold Settings.pollDelay
  cases hinterval : settings.pollInterval with
  | nan => simp [Binary64.ceilUnits?]
  | infinite negative =>
      rw [hinterval] at hsign
      simp [Binary64.ceilUnits?, Binary64.isFinite, show negative = false from hsign]
  | finite negative mantissa exponent => simp [Binary64.ceilUnits?, Binary64.isFinite]

theorem Quantity.rounded_eq_nan_iff {quantity : Quantity} :
    quantity.rounded = .nan ↔ quantity = .nan := by
  cases quantity with
  | nan => exact iff_of_true rfl rfl
  | infinite negative => simp [Quantity.rounded]
  | decimal negative digits power => simp [Quantity.rounded, Binary64.ofDecimal_ne_nan]

/-- A text denotes one number, as far as rounding tells numbers apart. -/
theorem rounded_unique {raw : String} {quantity other : Quantity}
    (hquantity : Denotes raw.toList quantity) (hother : Denotes raw.toList other) :
    quantity.rounded = other.rounded :=
  Option.some.inj ((ofString?_eq_some_iff.mpr ⟨quantity, hquantity, rfl⟩).symm.trans
    (ofString?_eq_some_iff.mpr ⟨other, hother, rfl⟩))

/-- The settings are refused exactly for a text that denotes no number, or one below zero. -/
theorem Settings.read_eq_error_iff {environment : Environment} {failure : Failure} :
    Settings.read environment = .error failure ↔
      ∃ raw, environment.AsksInterval raw ∧
        ((failure = .pollNotNumber raw ∧ ∀ quantity, ¬Denotes raw.toList quantity) ∨
          (failure = .pollNegative raw ∧
            ∃ quantity, Denotes raw.toList quantity ∧ quantity.IsNegative)) := by
  obtain ⟨hnone, settings, hread, -⟩ | ⟨raw, hraw, hcases⟩ := Settings.read_cases environment
  · rw [hread]
    exact iff_of_false nofun fun ⟨raw, hraw, _⟩ => hnone raw hraw
  obtain ⟨hread, hnone⟩ | ⟨quantity, hdenotes, ⟨hread, hsign⟩ | ⟨settings, hread, -, hsign⟩⟩ :=
    hcases
  · rw [hread]
    constructor
    · rintro ⟨⟩
      exact ⟨raw, hraw, Or.inl ⟨rfl, hnone⟩⟩
    · rintro ⟨other, hother, ⟨rfl, -⟩ | ⟨-, quantity, hdenotes, -⟩⟩
      · rw [hother.unique hraw]
      · exact absurd (hother.unique hraw ▸ hdenotes) (hnone quantity)
  · rw [hread]
    constructor
    · rintro ⟨⟩
      exact ⟨raw, hraw, Or.inr ⟨rfl, quantity, hdenotes, hsign⟩⟩
    · rintro ⟨other, hother, ⟨-, hnone⟩ | ⟨rfl, -⟩⟩
      · exact absurd (hother.unique hraw ▸ hdenotes) (hnone quantity)
      · rw [hother.unique hraw]
  · rw [hread]
    refine iff_of_false nofun ?_
    rintro ⟨other, hother, ⟨-, hnone⟩ | ⟨-, quantity', hdenotes', hnegative⟩⟩
    · exact hnone quantity (hother.unique hraw ▸ hdenotes)
    · rw [hother.unique hraw] at hdenotes'
      refine hsign (quantity.isNegative_rounded.mp ?_)
      rw [rounded_unique hdenotes hdenotes']
      exact quantity'.isNegative_rounded.mpr hnegative

/-- An accepted interval is that of the text, or the usual one where none is asked for. -/
theorem Settings.accepted_cases {environment : Environment} {settings : Settings}
    (hread : Settings.read environment = .ok settings) :
    ((∀ raw, ¬environment.AsksInterval raw) ∧ settings.pollInterval = defaultInterval) ∨
      ∃ raw quantity, environment.AsksInterval raw ∧ Denotes raw.toList quantity ∧
        settings.pollInterval = quantity.rounded ∧ ¬quantity.IsNegative := by
  obtain ⟨hnone, other, hother, hinterval⟩ | ⟨raw, hraw, hcases⟩ := Settings.read_cases environment
  · rw [hread] at hother
    obtain rfl := Except.ok.inj hother
    exact Or.inl ⟨hnone, hinterval⟩
  obtain ⟨hother, -⟩ | ⟨quantity, hdenotes, ⟨hother, -⟩ | ⟨other, hother, hinterval, hsign⟩⟩ :=
    hcases
  · rw [hread] at hother
    cases hother
  · rw [hread] at hother
    cases hother
  · rw [hread] at hother
    obtain rfl := Except.ok.inj hother
    exact Or.inr ⟨raw, quantity, hraw, hdenotes, hinterval, hsign⟩

/-- What the variable for the poll interval leads to.  An accepted interval is not below zero.  It
is finite unless the text denotes infinity, no number as such, or too large a number.  A task that
suspends is resumed after a delay unless its interval is infinite. -/
theorem Settings.interval_of_variable (environment : Environment) :
    (∀ failure, Settings.read environment = .error failure ↔
      ∃ raw, environment.AsksInterval raw ∧
        ((failure = .pollNotNumber raw ∧ ∀ quantity, ¬Denotes raw.toList quantity) ∨
          (failure = .pollNegative raw ∧
            ∃ quantity, Denotes raw.toList quantity ∧ quantity.IsNegative))) ∧
    ∀ settings, Settings.read environment = .ok settings →
      settings.pollInterval.isNegative = false ∧
      (((∀ raw, ¬environment.AsksInterval raw) ∧ settings.pollInterval = defaultInterval) ∨
        ∃ raw quantity, environment.AsksInterval raw ∧ Denotes raw.toList quantity ∧
          settings.pollInterval = quantity.rounded) ∧
      (settings.pollInterval.isFinite = true ↔ ∀ raw quantity, environment.AsksInterval raw →
        Denotes raw.toList quantity → quantity.IsFinite) ∧
      (settings.pollDelay = none ↔ ∃ raw quantity, environment.AsksInterval raw ∧
        Denotes raw.toList quantity ∧ ¬quantity.IsFinite ∧ quantity ≠ .nan) := by
  refine ⟨fun failure => Settings.read_eq_error_iff, fun settings hread => ?_⟩
  obtain ⟨hnone, hinterval⟩ | ⟨raw, quantity, hraw, hdenotes, hinterval, hsign⟩ :=
    Settings.accepted_cases hread
  · have hnonnegative : settings.pollInterval.isNegative = false := by
      rw [hinterval, isNegative_defaultInterval]
    rw [Settings.pollDelay_eq_none_iff hnonnegative, hinterval, isFinite_defaultInterval]
    refine ⟨isNegative_defaultInterval, Or.inl ⟨hnone, rfl⟩, ?_, ?_⟩
    · exact iff_of_true rfl fun raw _ hraw => absurd hraw (hnone raw)
    · exact iff_of_false (fun h => by cases h.1) fun ⟨raw, _, hraw, _⟩ => hnone raw hraw
  · have hnonnegative : settings.pollInterval.isNegative = false := by
      rw [hinterval, ← Bool.not_eq_true, quantity.isNegative_rounded]
      exact hsign
    -- whatever else the text denotes is rounded to the same
    have hsame : ∀ {other quantity'}, environment.AsksInterval other →
        Denotes other.toList quantity' → quantity'.rounded = settings.pollInterval := by
      intro other quantity' hother hdenotes'
      rw [hother.unique hraw] at hdenotes'
      rw [hinterval, rounded_unique hdenotes hdenotes']
    refine ⟨hnonnegative, Or.inr ⟨raw, quantity, hraw, hdenotes, hinterval⟩, ?_, ?_⟩
    · constructor
      · intro hfinite other quantity' hother hdenotes'
        rw [← quantity'.isFinite_rounded, hsame hother hdenotes']
        exact hfinite
      · intro hfinite
        rw [hinterval, quantity.isFinite_rounded]
        exact hfinite raw quantity hraw hdenotes
    · rw [Settings.pollDelay_eq_none_iff hnonnegative]
      constructor
      · rintro ⟨hinfinite, hnumber⟩
        rw [hinterval, ← Bool.not_eq_true, quantity.isFinite_rounded] at hinfinite
        rw [hinterval, ne_eq, Quantity.rounded_eq_nan_iff] at hnumber
        exact ⟨raw, quantity, hraw, hdenotes, hinfinite, hnumber⟩
      · rintro ⟨other, quantity', hother, hdenotes', hinfinite, hnumber⟩
        rw [← hsame hother hdenotes', ← Bool.not_eq_true, quantity'.isFinite_rounded, ne_eq,
          Quantity.rounded_eq_nan_iff]
        exact ⟨hinfinite, hnumber⟩

/-- Infinity, and no number as such, are accepted for an interval. -/
theorem Settings.unbounded_interval :
    (∃ settings, Settings.read [(intervalVariable, "inf")] = .ok settings ∧
      settings.pollInterval = .infinite false ∧ settings.pollDelay = none) ∧
    ∃ settings, Settings.read [(intervalVariable, "nan")] = .ok settings ∧
      settings.pollInterval = .nan :=
  ⟨⟨_, rfl, rfl, rfl⟩, _, rfl, rfl⟩

end BuildRunner
