import BuildRunner.Proofs.Machine.Running

/-!
# Ticks

Time changes the disk, the programs and the clock of a machine, and nothing else.  Where no program
runs, it changes the clock alone.
-/

namespace BuildRunner

variable {κ : Type} [Program κ]

namespace Machine

/-! ## What time leaves alone -/

section

variable {R : Machine κ → Machine κ → Prop} (hR : IsFrame R)
  (hadvance : ∀ (m : Machine κ) (index : Nat), R m (m.advanceOne index))

include hR hadvance

theorem foldl_advanceOne_of_frame (indices : List Nat) (m : Machine κ) :
    R m (indices.foldl advanceOne m) := by
  induction indices generalizing m with
  | nil => exact hR.refl m
  | cons index indices ih => exact hR.trans (hadvance m index) (ih _)

variable (hclock : ∀ m : Machine κ, R m { m with clock := m.clock + 1 })

include hclock

theorem tick_of_frame (m : Machine κ) : R m m.tick :=
  hR.trans (hclock m) (foldl_advanceOne_of_frame hR hadvance _ _)

/-- What the clock and the turn of one program leave alone, time leaves alone. -/
theorem elapse_of_frame (ticks : Nat) (m : Machine κ) : R m (m.elapse ticks) := by
  induction ticks generalizing m with
  | zero => exact hR.refl m
  | succ ticks ih => exact hR.trans (tick_of_frame hR hadvance hclock m) (ih m.tick)

end

theorem advanceOne_eq (m : Machine κ) (index : Nat) :
    ∃ disk programs, m.advanceOne index = { m with disk, programs } := by
  unfold advanceOne
  split
  · exact ⟨m.disk, m.programs, rfl⟩
  · exact ⟨_, _, rfl⟩

theorem foldl_advanceOne_eq (indices : List Nat) (m : Machine κ) :
    ∃ disk programs, indices.foldl advanceOne m = { m with disk, programs } := by
  induction indices generalizing m with
  | nil => exact ⟨m.disk, m.programs, rfl⟩
  | cons index indices ih =>
      obtain ⟨disk, programs, hfirst⟩ := m.advanceOne_eq index
      obtain ⟨disk', programs', hrest⟩ := ih (m.advanceOne index)
      refine ⟨disk', programs', ?_⟩
      rw [List.foldl_cons, hrest, hfirst]

theorem tick_eq (m : Machine κ) :
    ∃ disk programs, m.tick = { m with disk, programs, clock := m.clock + 1 } := by
  obtain ⟨disk, programs, hturns⟩ :=
    foldl_advanceOne_eq (List.range m.programs.length) { m with clock := m.clock + 1 }
  exact ⟨disk, programs, hturns⟩

theorem elapse_eq (ticks : Nat) (m : Machine κ) :
    ∃ disk programs, m.elapse ticks = { m with disk, programs, clock := m.clock + ticks } := by
  induction ticks generalizing m with
  | zero => exact ⟨m.disk, m.programs, rfl⟩
  | succ ticks ih =>
      obtain ⟨disk, programs, htick⟩ := m.tick_eq
      obtain ⟨disk', programs', hrest⟩ := ih m.tick
      refine ⟨disk', programs', ?_⟩
      rw [elapse, hrest, htick]
      simp only [Nat.add_assoc, Nat.add_comm 1 ticks]

theorem environment_elapse (ticks : Nat) (m : Machine κ) :
    (m.elapse ticks).environment = m.environment := by
  obtain ⟨_, _, helapse⟩ := m.elapse_eq ticks
  rw [helapse]

theorem trace_elapse (ticks : Nat) (m : Machine κ) : (m.elapse ticks).trace = m.trace := by
  obtain ⟨_, _, helapse⟩ := m.elapse_eq ticks
  rw [helapse]

theorem clock_elapse (ticks : Nat) (m : Machine κ) : (m.elapse ticks).clock = m.clock + ticks := by
  obtain ⟨_, _, helapse⟩ := m.elapse_eq ticks
  rw [helapse]

theorem handles_elapse (ticks : Nat) (m : Machine κ) : (m.elapse ticks).handles = m.handles := by
  obtain ⟨_, _, helapse⟩ := m.elapse_eq ticks
  rw [helapse]

theorem inTask_elapse (ticks : Nat) (m : Machine κ) : (m.elapse ticks).inTask = m.inTask := by
  obtain ⟨_, _, helapse⟩ := m.elapse_eq ticks
  rw [helapse]

theorem out_elapse (ticks : Nat) (m : Machine κ) : (m.elapse ticks).out = m.out := by
  obtain ⟨_, _, helapse⟩ := m.elapse_eq ticks
  rw [helapse]

theorem scratch_elapse (ticks : Nat) (m : Machine κ) : (m.elapse ticks).scratch = m.scratch := by
  obtain ⟨_, _, helapse⟩ := m.elapse_eq ticks
  rw [helapse]

theorem length_programs_elapse (ticks : Nat) (m : Machine κ) :
    (m.elapse ticks).programs.length = m.programs.length := by
  refine @elapse_of_frame κ _ (fun m m' => m'.programs.length = m.programs.length)
    ⟨fun _ => rfl, fun h h' => h'.trans h⟩ (fun m index => ?_) (fun _ => rfl) ticks m
  unfold advanceOne
  cases m.programs[index]? with
  | none => rfl
  | some program => exact List.length_set

/-- Programs that leave the disk alone do so however much time passes. -/
theorem disk_elapse (hstill : ∀ (time : Nat) (d : Disk) (program : κ),
    (Program.advance time d program).1 = d) (ticks : Nat) (m : Machine κ) :
    (m.elapse ticks).disk = m.disk := by
  refine @elapse_of_frame κ _ (fun m m' => m'.disk = m.disk) ⟨fun _ => rfl, fun h h' => h'.trans h⟩
    (fun m index => ?_) (fun _ => rfl) ticks m
  unfold advanceOne
  cases m.programs[index]? with
  | none => rfl
  | some program => exact hstill m.clock m.disk program

theorem elapse_add (first second : Nat) (m : Machine κ) :
    m.elapse (first + second) = (m.elapse first).elapse second := by
  induction first generalizing m with
  | zero => rw [Nat.zero_add, elapse]
  | succ first ih =>
      rw [Nat.succ_add]
      exact ih m.tick

/-- Where no program does anything, time changes the clock alone. -/
theorem elapse_of_still {m : Machine κ}
    (hstill : ∀ program ∈ m.programs, ∀ time,
      Program.advance time m.disk program = (m.disk, program)) (ticks : Nat) :
    m.elapse ticks = { m with clock := m.clock + ticks } := by
  have hturn : ∀ (index time : Nat), { m with clock := time }.advanceOne index =
      { m with clock := time } := by
    intro index time
    cases hprogram : m.programs[index]? with
    | none => simp [advanceOne, hprogram]
    | some program =>
        obtain ⟨hlt, rfl⟩ := List.getElem?_eq_some_iff.mp hprogram
        have hadvance := hstill _ (List.getElem_mem hlt) time
        simp [advanceOne, hprogram, hadvance]
  have hturns : ∀ (indices : List Nat) (time : Nat),
      indices.foldl advanceOne { m with clock := time } = { m with clock := time } := by
    intro indices time
    induction indices with
    | nil => rfl
    | cons index indices ih => rw [List.foldl_cons, hturn, ih]
  induction ticks generalizing m with
  | zero => rfl
  | succ ticks ih =>
      have htick : m.tick = { m with clock := m.clock + 1 } := hturns _ _
      have hrest := @ih { m with clock := m.clock + 1 } hstill hturn hturns
      rw [elapse, htick, hrest]
      simp only [Nat.add_assoc, Nat.add_comm 1 ticks]

/-! ## The end of a program -/

/-- A program has ended, and now time changes the clock alone.  The current directory has the path
that it had. -/
structure EndsInPlace (m : Machine κ) (index : Nat) (ended : Machine κ) : Prop where
  ends : m.awaitEnd index = some ended
  rests : ∀ ticks, ended.elapse ticks = { ended with clock := ended.clock + ticks }
  here : ended.disk.currentPath = m.disk.currentPath

theorem awaitEnd_of_tick {m : Machine κ} {index : Nat} (hrunning : m.answerOf index = .running)
    (hended : m.tick.answerOf index ≠ .running) : m.awaitEnd index = some m.tick := by
  unfold awaitEnd
  rw [repeatUntil_of_not_done (by simp [hrunning]), repeatUntil_of_done (by simp [hended])]

/-- A program that comes to its end does so after a number of ticks, and runs until then. -/
theorem exists_elapse_of_awaitEnd {m ended : Machine κ} {index : Nat}
    (hend : m.awaitEnd index = some ended) :
    ∃ last, ended = m.elapse last ∧ ended.answerOf index ≠ .running ∧
      ∀ ticks < last, (m.elapse ticks).answerOf index = .running := by
  obtain ⟨⟨last, hlast, hbefore⟩, hdone⟩ := repeatUntil_keeps
    (P := fun now => ∃ last, now = m.elapse last ∧
      ∀ ticks < last, (m.elapse ticks).answerOf index = .running)
    (fun now hrunning hnow => by
      obtain ⟨last, rfl, hbefore⟩ := hnow
      refine ⟨last + 1, (m.elapse_add last 1).symm, fun ticks hticks => ?_⟩
      rcases Nat.lt_succ_iff_lt_or_eq.mp hticks with hless | rfl
      · exact hbefore ticks hless
      · simpa using hrunning)
    ⟨0, rfl, fun ticks hticks => absurd hticks (Nat.not_lt_zero ticks)⟩ hend
  exact ⟨last, hlast, by simpa using hdone, hbefore⟩

/-- Whenever it is looked at, the program runs still, or the machine is as at its end, but for the
clock. -/
theorem EndsInPlace.exists_last {m ended : Machine κ} {index : Nat}
    (hends : m.EndsInPlace index ended) :
    ∃ last, (∀ ticks < last, (m.elapse ticks).answerOf index = .running) ∧
      ∀ ticks, last ≤ ticks → m.elapse ticks = { ended with clock := m.clock + ticks } := by
  obtain ⟨last, rfl, -, hbefore⟩ := exists_elapse_of_awaitEnd hends.ends
  refine ⟨last, hbefore, fun ticks hle => ?_⟩
  obtain ⟨more, rfl⟩ := Nat.exists_eq_add_of_le hle
  rw [elapse_add, hends.rests, clock_elapse, Nat.add_assoc]

end Machine

end BuildRunner
