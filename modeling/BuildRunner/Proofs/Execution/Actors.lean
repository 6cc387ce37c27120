import BuildRunner.Proofs.Execution.FirstTurns

/-!
# Processes that act as they are told

The conduct of a process says what it does, whatever its outputs are: the system refuses to start
it, or it writes to its outputs turn by turn and then ends with an exit code, or with a wait for it
that fails.  A process of a given conduct leaves the tree of the disk as it is but for the bytes in
its files, and it comes to its end.
-/

namespace BuildRunner

open Text

/-- How a process ends: with an exit code, or by a failure of the wait for it. -/
inductive Ending
  | exits (code : Int)
  /-- The system refuses the wait. -/
  | refuses (text : String)
  | breaks (text : String)

def Ending.answer : Ending → Answer
  | .exits code => .exited code
  | .refuses text => .refused text
  | .breaks text => .broken text

/-- What a process does. -/
inductive Conduct
  | unstarted (code : Errno)
  /-- It writes bytes to its output and to its error output in each of its turns, and then ends. -/
  | started (writes : List (Bytes × Bytes)) (ending : Ending)

/-- A process on its way, with the files of its outputs and what it has still to write. -/
structure Actor (conduct : Conduct) where
  out : Option Nat
  err : Option Nat
  left : List (Bytes × Bytes)
  ending : Ending

/-- Writes to an output; what goes elsewhere than to a file is not seen. -/
def Disk.writeOutput (d : Disk) (file : Option Nat) (bytes : Bytes) : Disk :=
  file.elim d fun index => d.write index bytes

instance (conduct : Conduct) : Program (Actor conduct) where
  load d _ _ out err :=
    match conduct with
    | .unstarted code => .error code
    | .started left ending => .ok (d, { out, err, left, ending })
  advance _ d actor :=
    match actor.left with
    | [] => (d, actor)
    | (first, second) :: left =>
      ((d.writeOutput actor.out first).writeOutput actor.err second, { actor with left })
  answer actor := if actor.left.isEmpty then actor.ending.answer else .running

theorem Ending.answer_ne_running (ending : Ending) : ending.answer ≠ .running := by
  cases ending with
  | exits code => simp [answer]
  | refuses text => simp [answer]
  | breaks text => simp [answer]

variable {conduct : Conduct}

theorem loadsQuietly_actor : LoadsQuietly (Actor conduct) where
  quiet hload := by
    cases conduct with
    | unstarted code => cases hload
    | started writes ending =>
        cases hload
        exact ⟨rfl, rfl, Nat.le_refl _⟩

/-! ## Writing -/

theorem Disk.opens_write (d : Disk) (index : Nat) (bytes : Bytes) :
    d.Opens (d.write index bytes) := by
  unfold write
  split
  · exact isFrame_opens.refl d
  · split
    · exact isFrame_opens.refl d
    · exact ⟨Node.gainsFiles_withData _ _ _, rfl, by simp⟩

theorem Disk.opens_writeOutput (d : Disk) (file : Option Nat) (bytes : Bytes) :
    d.Opens (d.writeOutput file bytes) := by
  cases file with
  | none => exact isFrame_opens.refl d
  | some index => exact d.opens_write index bytes

/-- The turn of a process changes no more than the bytes in files. -/
theorem opens_advance (time : Nat) (d : Disk) (actor : Actor conduct) :
    d.Opens (Program.advance time d actor).1 := by
  show d.Opens (match actor.left with
    | [] => (d, actor)
    | (first, second) :: left =>
      ((d.writeOutput actor.out first).writeOutput actor.err second, { actor with left })).1
  split
  · exact isFrame_opens.refl d
  · exact isFrame_opens.trans (d.opens_writeOutput _ _) (Disk.opens_writeOutput _ _ _)

namespace Machine

theorem spawns_elapse (ticks : Nat) (m : Machine (Actor conduct)) : Spawns m (m.elapse ticks) := by
  have hadvance : ∀ (m : Machine (Actor conduct)) (index : Nat), Spawns m (m.advanceOne index) := by
    intro m index
    unfold advanceOne
    split
    · exact isFrame_spawns.refl m
    · exact ⟨opens_advance m.clock _ _, rfl, rfl⟩
  exact elapse_of_frame isFrame_spawns hadvance (fun m => ⟨isFrame_opens.refl m.disk, rfl, rfl⟩)
    ticks m

/-! ## The turn of one program -/

section

variable {κ : Type} [Program κ] {m : Machine κ} {index : Nat} {program : κ}

theorem getElem?_foldl_advanceOne_of_not_mem {indices : List Nat} (hindex : index ∉ indices)
    (m : Machine κ) : (indices.foldl advanceOne m).programs[index]? = m.programs[index]? := by
  induction indices generalizing m with
  | nil => rfl
  | cons other indices ih =>
      rw [List.mem_cons, not_or] at hindex
      rw [List.foldl_cons, ih hindex.2]
      unfold advanceOne
      split
      · rfl
      · exact List.getElem?_set_ne (Ne.symm hindex.1)

theorem getElem?_advanceOne (hprogram : m.programs[index]? = some program) :
    (m.advanceOne index).programs[index]? =
      some (Program.advance m.clock m.disk program).2 := by
  unfold advanceOne
  rw [hprogram]
  exact List.getElem?_set_self (List.getElem?_eq_some_iff.mp hprogram).1

/-- With every tick a program has one turn. -/
theorem getElem?_tick (hprogram : m.programs[index]? = some program) :
    ∃ time d, m.tick.programs[index]? = some (Program.advance time d program).2 := by
  have hlt := (List.getElem?_eq_some_iff.mp hprogram).1
  obtain ⟨front, back, hrange⟩ := List.append_of_mem (List.mem_range.mpr hlt)
  have hnodup : (List.range m.programs.length).Nodup := List.nodup_range
  rw [hrange, List.nodup_append, List.nodup_cons] at hnodup
  obtain ⟨-, ⟨hback, -⟩, hfront⟩ := hnodup
  have hbefore : index ∉ front := fun hmem => hfront index hmem index List.mem_cons_self rfl
  unfold tick
  rw [hrange, List.foldl_append, List.foldl_cons, getElem?_foldl_advanceOne_of_not_mem hback]
  refine ⟨_, _, getElem?_advanceOne ?_⟩
  rw [getElem?_foldl_advanceOne_of_not_mem hbefore]
  exact hprogram

end

/-- A process comes to its end, and only the bytes in files have changed by then. -/
theorem exists_awaitEnd {index : Nat} {actor : Actor conduct} (m : Machine (Actor conduct))
    (hactor : m.programs[index]? = some actor) :
    ∃ ticks, m.awaitEnd index = some (m.elapse ticks) ∧
      (m.elapse ticks).answerOf index = actor.ending.answer := by
  have hanswer : ∀ {now : Machine (Actor conduct)} {actor : Actor conduct},
      now.programs[index]? = some actor →
        now.answerOf index = if actor.left.isEmpty then actor.ending.answer else .running := by
    intro now actor hnow
    unfold answerOf
    rw [hnow]
    rfl
  obtain ⟨out, err, left, ending⟩ := actor
  induction left generalizing m with
  | nil =>
      have hended := hanswer hactor
      refine ⟨0, ?_, hended⟩
      have hdone : m.answerOf index ≠ .running := by
        rw [hended]
        exact ending.answer_ne_running
      exact repeatUntil_of_done (by simpa using hdone)
  | cons pair left ih =>
      have hrunning : m.answerOf index = .running := hanswer hactor
      obtain ⟨time, d, htick⟩ := getElem?_tick hactor
      obtain ⟨ticks, hend, hended⟩ := ih m.tick htick
      refine ⟨ticks + 1, ?_, hended⟩
      unfold awaitEnd
      rw [repeatUntil_of_not_done (by simp [hrunning])]
      exact hend

end Machine

end BuildRunner
