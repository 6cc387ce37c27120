import BuildRunner.Proofs.Execution.Waiting
import BuildRunner.Proofs.Machine.Ticking
import BuildRunner.Proofs.Schedule.Progress

/-!
# Programs that end

A program ends if it answers after finitely many turns that it no longer runs, whatever the disk is
like when it has them.  As long as some of the programs run, time brings them further, and if all of
them end it can do so only finitely often.
-/

namespace BuildRunner

open BuildRunner.Schedule Relation

variable {κ : Type} [Program κ]

/-- A program that has ended never runs again. -/
structure EndsForGood (κ : Type) [Program κ] : Prop where
  stays : ∀ {program : κ}, Program.answer program ≠ .running →
    ∀ (time : Nat) (d : Disk), Program.answer (Program.advance time d program).2 ≠ .running

/-- The program has finitely many turns left until it ends. -/
inductive Terminates : κ → Prop
  | intro {program : κ} (hnext : Program.answer program = .running →
      ∀ (time : Nat) (d : Disk), Terminates (Program.advance time d program).2) :
      Terminates program

/-- The program as long as it runs. -/
def live? (program : κ) : Option κ :=
  if Program.answer program = .running then some program else none

/-- A program that runs has had a turn. -/
def HasHadTurn (after before : Option κ) : Prop :=
  ∃ program time d, before = some program ∧ after = live? (Program.advance time d program).2

theorem Terminates.acc {program : κ} (hterminates : Terminates program) :
    Acc HasHadTurn (live? program) := by
  induction hterminates with
  | @intro program _ ih =>
      unfold live?
      refine ⟨_, fun after hturn => ?_⟩
      obtain ⟨other, time, d, hbefore, rfl⟩ := hturn
      split at hbefore
      · next hrunning =>
          cases hbefore
          exact ih hrunning time d
      · cases hbefore

theorem exists_live_of_turn {after before : List (Option κ)}
    (hturn : OneBelow HasHadTurn after before) :
    ∃ (index : Nat) (program : κ), before[index]? = some (some program) := by
  induction hturn with
  | head hturn =>
      obtain ⟨program, -, -, rfl, -⟩ := hturn
      exact ⟨0, program, rfl⟩
  | tail _ ih =>
      obtain ⟨index, program, hprogram⟩ := ih
      exact ⟨index + 1, program, hprogram⟩

namespace Machine

/-- The programs that run, each at its index. -/
def live (m : Machine κ) : List (Option κ) := m.programs.map live?

/-- Some program runs. -/
def Busy (m : Machine κ) : Prop := ∃ program ∈ m.programs, Program.answer program = .running

/-- Programs that run have had turns. -/
def Further (m' m : Machine κ) : Prop := TransGen (OneBelow HasHadTurn) m'.live m.live

theorem acc_further {m : Machine κ} (hterminate : ∀ program ∈ m.programs, Terminates program) :
    Acc Further m := by
  refine InvImage.accessible Machine.live (Acc.transGen (acc_oneBelow fun program hprogram => ?_))
  obtain ⟨program, hmem, rfl⟩ := List.mem_map.mp hprogram
  exact (hterminate program hmem).acc

theorem busy_iff {m : Machine κ} :
    m.Busy ↔ ∃ (index : Nat) (program : κ), m.live[index]? = some (some program) := by
  have hlive : ∀ program : κ, Program.answer program = .running ↔
      ∃ other, live? program = some other := by
    intro program
    unfold live?
    split <;> simp [*]
  constructor
  · rintro ⟨program, hmem, hrunning⟩
    obtain ⟨index, hindex⟩ := List.mem_iff_getElem?.mp hmem
    obtain ⟨other, hother⟩ := (hlive program).mp hrunning
    refine ⟨index, other, ?_⟩
    rw [live, List.getElem?_map, hindex, Option.map_some, hother]
  · rintro ⟨index, other, hother⟩
    rw [live, List.getElem?_map] at hother
    obtain ⟨program, hprogram, hsame⟩ := Option.map_eq_some_iff.mp hother
    exact ⟨program, List.mem_of_getElem? hprogram, (hlive program).mpr ⟨other, hsame⟩⟩

/-- Any number of turns of programs that run. -/
theorem isFrame_turns :
    IsFrame fun m m' : Machine κ => ReflTransGen (OneBelow HasHadTurn) m'.live m.live :=
  ⟨fun _ => .refl, fun h h' => h'.trans h⟩

section

variable (hends : EndsForGood κ)

include hends

/-- The turn of one program. -/
theorem live_advanceOne (m : Machine κ) (index : Nat) :
    OneBelow HasHadTurn (m.advanceOne index).live m.live ∨
      (∀ program, m.live[index]? ≠ some (some program)) ∧
        (m.advanceOne index).live = m.live := by
  cases hprogram : m.programs[index]? with
  | none =>
      have hnone : m.live[index]? = none := by rw [live, List.getElem?_map, hprogram]; rfl
      refine Or.inr ⟨by simp [hnone], ?_⟩
      unfold advanceOne
      rw [hprogram]
  | some program =>
      have hlive : m.live[index]? = some (live? program) := by
        rw [live, List.getElem?_map, hprogram]
        rfl
      have hafter : (m.advanceOne index).live =
          m.live.set index (live? (Program.advance m.clock m.disk program).2) := by
        unfold advanceOne
        rw [hprogram]
        exact List.map_set
      rw [hafter]
      by_cases hrunning : Program.answer program = .running
      · have hself : live? program = some program := if_pos hrunning
        exact Or.inl (oneBelow_set hlive ⟨program, m.clock, m.disk, hself, rfl⟩)
      · right
        have hself : live? program = none := if_neg hrunning
        have hover : live? (Program.advance m.clock m.disk program).2 = none :=
          if_neg (hends.stays hrunning m.clock m.disk)
        rw [hself] at hlive
        obtain ⟨hlt, hget⟩ := List.getElem?_eq_some_iff.mp hlive
        refine ⟨by simp [hlive], ?_⟩
        rw [hover, ← hget, List.set_getElem_self]

theorem turns_advanceOne (m : Machine κ) (index : Nat) :
    ReflTransGen (OneBelow HasHadTurn) (m.advanceOne index).live m.live := by
  rcases live_advanceOne hends m index with hturn | ⟨-, hsame⟩
  · exact .single hturn
  · rw [hsame]

/-- A program that runs has a turn if it is among those that are given one. -/
theorem further_foldl {indices : List Nat} {m : Machine κ} {index : Nat} {program : κ}
    (hindex : index ∈ indices) (hprogram : m.live[index]? = some (some program)) :
    Further (indices.foldl advanceOne m) m := by
  induction indices generalizing m with
  | nil => cases hindex
  | cons first indices ih =>
      rw [Further, List.foldl_cons]
      rcases live_advanceOne hends m first with hturn | ⟨hnone, hsame⟩
      · exact TransGen.tail'
          (foldl_advanceOne_of_frame isFrame_turns (turns_advanceOne hends) indices _) hturn
      · have hrest : index ∈ indices := by
          refine (List.mem_cons.mp hindex).resolve_left ?_
          rintro rfl
          exact hnone program hprogram
        have hfurther := ih hrest (hsame ▸ hprogram)
        rwa [Further, hsame] at hfurther

theorem turns_elapse (ticks : Nat) (m : Machine κ) :
    ReflTransGen (OneBelow HasHadTurn) (m.elapse ticks).live m.live :=
  elapse_of_frame isFrame_turns (turns_advanceOne hends) (fun _ => .refl) ticks m

/-- While programs run time brings them further. -/
theorem further_elapse {m : Machine κ} (hbusy : m.Busy) {ticks : Nat} (hticks : 0 < ticks) :
    Further (m.elapse ticks) m := by
  obtain ⟨index, program, hprogram⟩ := busy_iff.mp hbusy
  obtain ⟨ticks, rfl⟩ := Nat.exists_eq_succ_of_ne_zero (Nat.ne_of_gt hticks)
  have hlt : index < m.programs.length := by
    have hlive := (List.getElem?_eq_some_iff.mp hprogram).1
    rwa [live, List.length_map] at hlive
  have htick : Further m.tick m := further_foldl hends (List.mem_range.mpr hlt) hprogram
  exact TransGen.trans_right (turns_elapse hends ticks m.tick) htick

/-- Where no program runs none will. -/
theorem idle_elapse {m : Machine κ} (hidle : ¬m.Busy) (ticks : Nat) : ¬(m.elapse ticks).Busy := by
  rcases (turns_elapse hends ticks m).cases_tail with hsame | ⟨between, -, hturn⟩
  · rw [busy_iff] at hidle ⊢
    rwa [← hsame]
  · exact absurd (busy_iff.mpr (exists_live_of_turn hturn)) hidle

end

end Machine

theorem endsForGood_pause : EndsForGood Pause where
  stays := by
    intro program hended time d
    have hnone : program.left = 0 := by
      by_contra hleft
      exact hended (if_neg hleft)
    have hanswer : Program.answer (Program.advance time d program).2 = .exited 0 :=
      if_pos (by simp [Program.advance, hnone])
    rw [hanswer]
    simp

theorem terminates_pause (program : Pause) : Terminates program := by
  obtain ⟨left⟩ := program
  induction left with
  | zero =>
      refine .intro fun hrunning => ?_
      cases hrunning
  | succ left ih => exact .intro fun _ _ _ => ih

end BuildRunner
