/-!
# Repetition

A step is repeated until the state is one that is done.  How many steps that takes is left open; if no
state on the way is done, there is no result.
-/

namespace BuildRunner

variable {α : Type} {done : α → Bool} {step : α → α} {a b : α}

/-- A state that is reached from another one by steps from states that are not done. -/
inductive OnTheWay (done : α → Bool) (step : α → α) (a : α) : α → Prop
  | start : OnTheWay done step a a
  | next {b : α} (hbefore : OnTheWay done step a b) (hdone : ¬done b = true) :
      OnTheWay done step a (step b)

/-- The end of the way, if there is one. -/
abbrev WayEnd (done : α → Bool) (step : α → α) (a : α) : Type :=
  Option { b // OnTheWay done step a b ∧ done b = true }

/-- Takes a step, unless the state is done. -/
def goOn (done : α → Bool) (step : α → α) (a : α) (now : { b // OnTheWay done step a b }) :
    Option ({ b // OnTheWay done step a b } ⊕ WayEnd done step a) :=
  if hdone : done now.val = true then some (.inr (some ⟨now.val, now.property, hdone⟩))
  else some (.inl ⟨step now.val, .next now.property hdone⟩)

/-- The first state on the way that is done.  Every state is taken along with the proof that it is on
the way, so that nothing else can come out. -/
def repeatUntil (done : α → Bool) (step : α → α) (a : α) : Option α :=
  (repeatM (goOn done step a) ⟨a, .start⟩).join.map Subtype.val

theorem OnTheWay.cases_start (hway : OnTheWay done step a b) :
    b = a ∨ done a = false ∧ OnTheWay done step (step a) b := by
  induction hway with
  | start => exact Or.inl rfl
  | @next c hbefore hdone ih =>
      rcases ih with rfl | ⟨ha, hway⟩
      · exact Or.inr ⟨by simpa using hdone, .start⟩
      · exact Or.inr ⟨ha, hway.next hdone⟩

theorem OnTheWay.of_step (ha : done a = false) (hway : OnTheWay done step (step a) b) :
    OnTheWay done step a b := by
  induction hway with
  | start => exact .next .start (by simp [ha])
  | next _ hdone ih => exact .next ih hdone

/-- The repetition has come to each state on the way. -/
theorem OnTheWay.repeatM_eq (hway : OnTheWay done step a b) :
    repeatM (goOn done step a) ⟨a, .start⟩ = repeatM (goOn done step a) ⟨b, hway⟩ := by
  induction hway with
  | start => rfl
  | next hbefore hdone ih =>
      rw [ih, repeatM_eq_of_monadTail, repeatM.body, goOn, dif_neg hdone]
      rfl

theorem repeatUntil_eq_some_iff :
    repeatUntil done step a = some b ↔ OnTheWay done step a b ∧ done b = true := by
  constructor
  · intro hrun
    obtain ⟨found, -, rfl⟩ := Option.map_eq_some_iff.mp hrun
    exact found.property
  · rintro ⟨hway, hdone⟩
    unfold repeatUntil
    rw [hway.repeatM_eq, repeatM_eq_of_monadTail, repeatM.body, goOn, dif_pos hdone]
    rfl

theorem repeatUntil_of_done (ha : done a = true) : repeatUntil done step a = some a :=
  repeatUntil_eq_some_iff.mpr ⟨.start, ha⟩

theorem repeatUntil_of_not_done (ha : done a = false) :
    repeatUntil done step a = repeatUntil done step (step a) := by
  apply Option.ext
  intro b
  rw [repeatUntil_eq_some_iff, repeatUntil_eq_some_iff]
  constructor
  · rintro ⟨hway, hdone⟩
    rcases hway.cases_start with rfl | ⟨-, hrest⟩
    · rw [ha] at hdone
      cases hdone
    · exact ⟨hrest, hdone⟩
  · rintro ⟨hway, hdone⟩
    exact ⟨hway.of_step ha, hdone⟩

/-- What every step keeps holds in the end. -/
theorem repeatUntil_keeps {P : α → Prop} (hstep : ∀ a, done a = false → P a → P (step a))
    (ha : P a) (hrun : repeatUntil done step a = some b) : P b ∧ done b = true := by
  obtain ⟨hway, hdone⟩ := repeatUntil_eq_some_iff.mp hrun
  refine ⟨?_, hdone⟩
  clear hrun hdone
  induction hway with
  | start => exact ha
  | next _ hdone ih => exact hstep _ (by simpa using hdone) ih

end BuildRunner
