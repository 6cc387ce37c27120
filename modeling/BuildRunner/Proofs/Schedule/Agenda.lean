import BuildRunner.Proofs.Schedule.Courses
import BuildRunner.Schedule.Loop
import Mathlib.Data.List.Basic

/-!
# Agendas

An agenda holds an entry or a timer for each task that can be resumed, and for no other.  Resuming a
task takes its entry, and what follows from its turn makes the agenda whole again.
-/

namespace BuildRunner.Schedule

variable {σ τ ρ ε : Type}

/-- The task that an entry resumes. -/
def Entry.resumed? : Entry → Option Nat
  | .task index => some index
  | .again index => some index
  | _ => none

/-- The task that an entry is about. -/
def Entry.subject? : Entry → Option Nat
  | .task index => some index
  | .again index => some index
  | .report index => some index
  | _ => none

/-- The entry that follows from a turn. -/
def Wake.entry? : Wake → Option Entry
  | .granted index => some (.task index)
  | .finished index => some (.report index)
  | .paused index (some 0) => some (.again index)
  | _ => none

/-- The task that has to wait for its time after a turn. -/
def Wake.timer? : Wake → Option Nat
  | .paused index (some (_ + 1)) => some index
  | _ => none

def Status.isReady : Status τ ρ ε → Bool
  | .fresh _ => true
  | .granted _ => true
  | .suspended _ => true
  | _ => false

namespace Pool

/-- The task of an index can be resumed. -/
def ready (pool : Pool τ ρ ε) (index : Nat) : Bool := pool.tasks[index]?.any Status.isReady

/-- The task that an entry calls for its first turn. -/
def called? (pool : Pool τ ρ ε) : Entry → Option Nat
  | .task index =>
    match pool.tasks[index]? with
    | some (.fresh _) => some index
    | some (.granted _) => some index
    | _ => none
  | _ => none

/-- The failure that an entry reports. -/
def reported? (pool : Pool τ ρ ε) : Entry → Option ε
  | .report index => pool.failureOf index
  | _ => none

/-- An entry agrees with the status of its task. -/
def Fits (pool : Pool τ ρ ε) : Entry → Prop
  | .again index => ∃ rest, pool.tasks[index]? = some (.suspended rest)
  | .report index => ∃ ending, pool.tasks[index]? = some (.ended ending)
  | _ => True

section

variable {pool pool' : Pool τ ρ ε} {entry : Entry}

theorem called?_congr
    (hsame : ∀ i, entry.subject? = some i → pool'.tasks[i]? = pool.tasks[i]?) :
    pool'.called? entry = pool.called? entry := by
  cases entry with
  | task i => simp only [called?, hsame i rfl]
  | _ => rfl

theorem reported?_congr
    (hsame : ∀ i, entry.subject? = some i → pool'.tasks[i]? = pool.tasks[i]?) :
    pool'.reported? entry = pool.reported? entry := by
  cases entry with
  | report i => simp only [reported?, failureOf, hsame i rfl]
  | _ => rfl

theorem fits_congr (hsame : ∀ i, entry.subject? = some i → pool'.tasks[i]? = pool.tasks[i]?)
    (hfits : pool.Fits entry) : pool'.Fits entry := by
  cases entry with
  | again i =>
      obtain ⟨rest, hrest⟩ := hfits
      exact ⟨rest, (hsame i rfl).trans hrest⟩
  | report i =>
      obtain ⟨ending, hending⟩ := hfits
      exact ⟨ending, (hsame i rfl).trans hending⟩
  | _ => trivial

theorem ready_congr {i : Nat} (hsame : pool'.tasks[i]? = pool.tasks[i]?) :
    pool'.ready i = pool.ready i := by
  rw [ready, hsame, ready]

theorem ready_of_status {i : Nat} {status : Status τ ρ ε}
    (hstatus : pool.tasks[i]? = some status) : pool.ready i = status.isReady := by
  rw [ready, hstatus, Option.any_some]

end

end Pool

/-- All tasks are left as they are but for the one that is resumed and those that wait. -/
theorem Course.Resumed.getElem?_of_ne {routine : Coroutine σ τ ρ ε} {limit : Option Nat}
    {course next : Course σ τ ρ ε} {begun handed asked i : Nat} {wakes : List Wake}
    (hstep : course.Resumed routine limit begun handed asked i next wakes) {j : Nat} (hj : j ≠ i)
    (hwaits : ∀ task, course.pool.tasks[j]? ≠ some (.blocked task)) :
    next.pool.tasks[j]? = course.pool.tasks[j]? := by
  cases hstep with
  | waits _ _ _ htasks _ _ _ => rw [htasks, List.getElem?_set_ne hj.symm]
  | turn _ _ _ _ _ _ hturned _ =>
      generalize next.pool.tasks = tasks at hturned
      cases hturned with
      | paused => rw [List.set_set, List.getElem?_set_ne hj.symm]
      | left => rw [List.set_set, List.getElem?_set_ne hj.symm]
      | @handedOn _ other task _ hnext hne =>
          rw [List.getElem?_set_ne hne] at hnext
          have hother : other ≠ j := by
            rintro rfl
            exact hwaits task hnext
          rw [List.getElem?_set_ne hother, List.set_set, List.getElem?_set_ne hj.symm]

/-- No task comes to ask for a seat again. -/
theorem Course.Resumed.fresh {routine : Coroutine σ τ ρ ε} {limit : Option Nat}
    {course next : Course σ τ ρ ε} {begun handed asked i : Nat} {wakes : List Wake}
    (hstep : course.Resumed routine limit begun handed asked i next wakes) {j : Nat} {task : τ}
    (hfresh : next.pool.tasks[j]? = some (.fresh task)) :
    course.pool.tasks[j]? = some (.fresh task) := by
  cases hstep with
  | waits _ _ _ htasks _ _ _ =>
      rw [htasks, List.getElem?_set] at hfresh
      split_ifs at hfresh <;> simp_all
  | turn _ _ _ _ _ _ hturned _ =>
      generalize next.pool.tasks = tasks at hturned hfresh
      cases hturned with
      | paused =>
          rw [List.set_set, List.getElem?_set] at hfresh
          split_ifs at hfresh <;> simp_all
      | left =>
          rw [List.set_set, List.getElem?_set] at hfresh
          split_ifs at hfresh <;> simp_all
      | handedOn =>
          rw [List.set_set, List.getElem?_set, List.getElem?_set] at hfresh
          split_ifs at hfresh <;> simp_all

/-- The entries and the timers for the tasks of a pool: one for each task that is ready. -/
structure Agenda (pool : Pool τ ρ ε) (entries : List Entry) (timers : List Nat) : Prop where
  ready : ∀ i, entries.countP (fun entry => entry.resumed? == some i) + timers.count i =
    (pool.ready i).toNat
  fits : ∀ entry ∈ entries, pool.Fits entry
  timed : ∀ i ∈ timers, ∃ rest, pool.tasks[i]? = some (.suspended rest)

namespace Agenda

variable {pool pool' : Pool τ ρ ε} {entry : Entry} {entries : List Entry} {timers : List Nat}
  {i : Nat}

theorem exists_ready (hagenda : Agenda pool (entry :: entries) timers)
    (hresumed : entry.resumed? = some i) :
    ∃ status, pool.tasks[i]? = some status ∧ status.isReady = true := by
  have hcount := hagenda.ready i
  rw [List.countP_cons_of_pos (by simp [hresumed])] at hcount
  cases hready : pool.ready i with
  | false => simp [hready] at hcount
  | true =>
      rw [Pool.ready, Option.any_eq_true] at hready
      exact hready

/-- Without the entry of a task nothing is left that resumes it. -/
theorem ready_rest (hagenda : Agenda pool (entry :: entries) timers)
    (hresumed : entry.resumed? = some i) (j : Nat) :
    entries.countP (fun other => other.resumed? == some j) + timers.count j =
      if j = i then 0 else (pool.ready j).toNat := by
  have hcount := hagenda.ready j
  by_cases hj : j = i
  · subst hj
    have hle := Bool.toNat_le (pool.ready j)
    rw [List.countP_cons_of_pos (by simp [hresumed])] at hcount
    rw [if_pos rfl]
    omega
  · rw [List.countP_cons_of_neg (by simpa [hresumed] using Ne.symm hj)] at hcount
    rw [if_neg hj, hcount]

/-- What is left is about other tasks, and none of them waits for a seat. -/
theorem subject_rest (hagenda : Agenda pool (entry :: entries) timers)
    (hresumed : entry.resumed? = some i) {other : Entry} (hother : other ∈ entries) {j : Nat}
    (hsubject : other.subject? = some j) :
    j ≠ i ∧ ∀ task, pool.tasks[j]? ≠ some (.blocked task) := by
  have hresumes : other.resumed? = some j →
      j ≠ i ∧ ∀ task, pool.tasks[j]? ≠ some (.blocked task) := by
    intro hj
    have hcount := hagenda.ready_rest hresumed j
    have hpos : 0 < entries.countP (fun other => other.resumed? == some j) :=
      List.countP_pos_iff.mpr ⟨other, hother, by simp [hj]⟩
    split_ifs at hcount with hsame
    · exact absurd hcount (by omega)
    · refine ⟨hsame, fun task hblocked => ?_⟩
      have hnot : pool.ready j = false := Pool.ready_of_status hblocked
      rw [hnot, Bool.toNat_false] at hcount
      omega
  cases other with
  | task => exact hresumes hsubject
  | again => exact hresumes hsubject
  | report k =>
      obtain ⟨ending, hended⟩ := hagenda.fits _ (List.mem_cons_of_mem _ hother)
      cases hsubject
      refine ⟨?_, fun task hblocked => by simp [hblocked] at hended⟩
      rintro rfl
      obtain ⟨status, hstatus, hready⟩ := hagenda.exists_ready hresumed
      rw [hended] at hstatus
      cases hstatus
      simp [Status.isReady] at hready
  | wake => cases hsubject
  | stop => cases hsubject

theorem timer_rest (hagenda : Agenda pool (entry :: entries) timers)
    (hresumed : entry.resumed? = some i) {j : Nat} (hj : j ∈ timers) :
    j ≠ i ∧ ∀ task, pool.tasks[j]? ≠ some (.blocked task) := by
  obtain ⟨rest, hsuspended⟩ := hagenda.timed j hj
  refine ⟨?_, fun task hblocked => by simp [hblocked] at hsuspended⟩
  rintro rfl
  have hcount := hagenda.ready_rest hresumed j
  have hpos := List.count_pos_iff.mpr hj
  rw [if_pos rfl] at hcount
  omega

/-- The agenda after the entry of a task has been taken, if all other tasks that do not wait for a
seat are as they were. -/
theorem replace (hagenda : Agenda pool (entry :: entries) timers)
    (hresumed : entry.resumed? = some i)
    (hsame : ∀ j, j ≠ i → (∀ task, pool.tasks[j]? ≠ some (.blocked task)) →
      pool'.tasks[j]? = pool.tasks[j]?)
    (newEntries : List Entry) (newTimers : List Nat)
    (hnew : ∀ j, newEntries.countP (fun other => other.resumed? == some j) + newTimers.count j +
      (if j = i then 0 else (pool.ready j).toNat) = (pool'.ready j).toNat)
    (hfits : ∀ other ∈ newEntries, pool'.Fits other)
    (htimed : ∀ j ∈ newTimers, ∃ rest, pool'.tasks[j]? = some (.suspended rest)) :
    Agenda pool' (entries ++ newEntries) (timers ++ newTimers) := by
  refine ⟨fun j => ?_, fun other hother => ?_, fun j hj => ?_⟩
  · have hrest := hagenda.ready_rest hresumed j
    have hall := hnew j
    rw [List.countP_append, List.count_append]
    omega
  · rcases List.mem_append.mp hother with hold | hnew
    · refine Pool.fits_congr (fun j hsubject => ?_)
        (hagenda.fits other (List.mem_cons_of_mem _ hold))
      obtain ⟨hj, hwaits⟩ := hagenda.subject_rest hresumed hold hsubject
      exact hsame j hj hwaits
    · exact hfits other hnew
  · rcases List.mem_append.mp hj with hold | hnew
    · obtain ⟨hne, hwaits⟩ := hagenda.timer_rest hresumed hold
      obtain ⟨rest, hrest⟩ := hagenda.timed j hold
      exact ⟨rest, (hsame j hne hwaits).trans hrest⟩
    · exact htimed j hnew

/-- The agenda after the entry of a task has been taken, if no other task has changed. -/
theorem replace_set (hagenda : Agenda pool (entry :: entries) timers)
    (hresumed : entry.resumed? = some i) {status : Status τ ρ ε}
    (htasks : pool'.tasks = pool.tasks.set i status)
    (newEntries : List Entry) (newTimers : List Nat)
    (hnew : ∀ j, newEntries.countP (fun other => other.resumed? == some j) + newTimers.count j =
      if j = i then status.isReady.toNat else 0)
    (hfits : pool'.tasks[i]? = some status → ∀ other ∈ newEntries, pool'.Fits other)
    (htimed : ∀ j ∈ newTimers, j = i ∧ ∃ rest, status = .suspended rest) :
    Agenda pool' (entries ++ newEntries) (timers ++ newTimers) := by
  obtain ⟨old, hold, -⟩ := hagenda.exists_ready hresumed
  have hself : pool'.tasks[i]? = some status := by
    rw [htasks, List.getElem?_set_self (List.getElem?_eq_some_iff.mp hold).1]
  have hother : ∀ j, j ≠ i → pool'.tasks[j]? = pool.tasks[j]? := by
    intro j hj
    rw [htasks, List.getElem?_set_ne hj.symm]
  refine hagenda.replace hresumed (fun j hj _ => hother j hj) newEntries newTimers (fun j => ?_) (hfits hself)
    (fun j hj => ?_)
  · rw [hnew]
    by_cases hj : j = i
    · rw [if_pos hj, if_pos hj, hj, Pool.ready_of_status hself, Nat.add_zero]
    · rw [if_neg hj, if_neg hj, Pool.ready_congr (hother j hj), Nat.zero_add]
  · obtain ⟨rfl, rest, rfl⟩ := htimed j hj
    exact ⟨rest, hself⟩

variable {routine : Coroutine σ τ ρ ε} {limit : Option Nat} {course next : Course σ τ ρ ε}
  {begun handed asked : Nat} {wakes : List Wake}

/-- The agenda after a task has been resumed. -/
theorem resume (hagenda : Agenda course.pool (entry :: entries) timers)
    (hresumed : entry.resumed? = some i)
    (hstep : course.Resumed routine limit begun handed asked i next wakes)
    (hprompt : ∀ turn ∈ next.turns, turn.outcome ≠ .paused none) :
    Agenda next.pool (entries ++ wakes.filterMap Wake.entry?)
        (timers ++ wakes.filterMap Wake.timer?) := by
  have hsame := fun j => hstep.getElem?_of_ne (j := j)
  cases hstep with
  | waits _ _ hwakes htasks _ _ _ =>
      subst hwakes
      exact hagenda.replace_set hresumed htasks [] [] (fun j => by simp [Status.isReady]) (by simp)
        (by simp)
  | @turn task status _ _ _ _ _ hstatus htask _ _ hturns hturned _ =>
      generalize htasks : next.pool.tasks = tasks at hturned
      cases hturned with
      | @paused delay rest hpaused =>
          rw [List.set_set] at htasks
          match delay with
          | none =>
              refine absurd ?_ (hprompt _ (hturns ▸ List.mem_append_right _ List.mem_cons_self))
              rw [hpaused]
              rfl
          | some 0 =>
              refine hagenda.replace_set hresumed htasks [.again i] [] (fun j => ?_)
                 (fun hself other hother => ?_) (by simp)
              · by_cases hj : j = i
                · simp [hj, Entry.resumed?, Status.isReady]
                · simp [hj, Ne.symm hj, Entry.resumed?]
              · rw [List.mem_singleton.mp hother]
                exact ⟨rest, hself⟩
          | some (n + 1) =>
              refine hagenda.replace_set hresumed htasks [] [i] (fun j => ?_)
                (by simp) (fun j hj => ⟨List.mem_singleton.mp hj, rest, rfl⟩)
              by_cases hj : j = i
              · simp [hj, Status.isReady]
              · simp [hj, Ne.symm hj]
      | @left ending hending =>
          rw [List.set_set] at htasks
          refine hagenda.replace_set hresumed htasks [.report i] [] (fun j => ?_)
            (fun hself other hother => ?_) (by simp)
          · simp [Entry.resumed?, Status.isReady]
          · rw [List.mem_singleton.mp hother]
            exact ⟨ending, hself⟩
      | @handedOn ending k other hending hnext hne =>
          have hlt := (List.getElem?_eq_some_iff.mp hstatus).1
          rw [List.getElem?_set_ne hne] at hnext
          rw [List.set_set] at htasks
          have hself : next.pool.tasks[i]? = some (.ended ending) := by
            rw [htasks, List.getElem?_set_ne hne.symm, List.getElem?_set_self hlt]
          have hgranted : next.pool.tasks[k]? = some (.granted other) := by
            rw [htasks, List.getElem?_set_self]
            simpa using (List.getElem?_eq_some_iff.mp hnext).1
          refine hagenda.replace hresumed hsame [.task k, .report i] [] (fun j => ?_)
            (fun new hnew => ?_) (by simp)
          · rcases eq_or_ne j i with rfl | hj
            · simp [Pool.ready_of_status hself, Status.isReady, Entry.resumed?, hne.symm]
            rcases eq_or_ne j k with rfl | hk
            · simp [hj, Pool.ready_of_status hgranted, Pool.ready_of_status hnext,
                Status.isReady, Entry.resumed?]
            · have hother : next.pool.tasks[j]? = course.pool.tasks[j]? := by
                rw [htasks, List.getElem?_set_ne hk.symm, List.getElem?_set_ne hj.symm]
              simp [hj, hk.symm, Pool.ready_congr hother, Entry.resumed?]
          · rcases List.mem_cons.mp hnew with rfl | hreport
            · trivial
            · rw [List.mem_singleton.mp hreport]
              exact ⟨ending, hself⟩

/-- An entry that resumes nobody may be taken, and others like it may be added. -/
theorem skip (hagenda : Agenda pool (entry :: entries) timers) (hentry : entry.resumed? = none)
    {newEntries : List Entry} (hnew : ∀ other ∈ newEntries, other.subject? = none) :
    Agenda pool (entries ++ newEntries) timers := by
  have hresumed : ∀ other ∈ newEntries, other.resumed? = none := by
    intro other hother
    have hsubject := hnew other hother
    cases other with
    | task => cases hsubject
    | again => cases hsubject
    | _ => rfl
  refine ⟨fun i => ?_, fun other hother => ?_, hagenda.timed⟩
  · have hnone : newEntries.countP (fun other => other.resumed? == some i) = 0 :=
      List.countP_eq_zero.mpr fun other hother => by simp [hresumed other hother]
    have hcount := hagenda.ready i
    rw [List.countP_cons_of_neg (by simp [hentry])] at hcount
    rw [List.countP_append, hnone, Nat.add_zero, hcount]
  · rcases List.mem_append.mp hother with hold | hmem
    · exact hagenda.fits other (List.mem_cons_of_mem _ hold)
    · have hsubject := hnew other hmem
      cases other with
      | again => cases hsubject
      | report => cases hsubject
      | _ => trivial

/-- The tasks whose time has come get entries. -/
theorem wakeUp {due rest : List Nat} (hagenda : Agenda pool entries (due ++ rest)) :
    Agenda pool (entries ++ due.map .task) rest := by
  refine ⟨fun i => ?_, fun other hother => ?_, fun i hi => ?_⟩
  · have hcount := hagenda.ready i
    have hdue : (due.map Entry.task).countP (fun other => other.resumed? == some i) =
        due.count i := by
      rw [List.countP_map, List.count]
      rfl
    rw [List.count_append] at hcount
    rw [List.countP_append, hdue, Nat.add_assoc, hcount]
  · rcases List.mem_append.mp hother with hold | hnew
    · exact hagenda.fits other hold
    · obtain ⟨i, -, rfl⟩ := List.mem_map.mp hnew
      trivial
  · exact hagenda.timed i (List.mem_append_right _ hi)

/-- A task that has yet to ask for a seat has an entry of its own. -/
theorem mem_of_fresh (hagenda : Agenda pool entries timers) {task : τ}
    (hfresh : pool.tasks[i]? = some (.fresh task)) : .task i ∈ entries := by
  have hcount := hagenda.ready i
  rw [Pool.ready_of_status hfresh] at hcount
  have hnone : timers.count i = 0 := by
    refine List.count_eq_zero.mpr fun hi => ?_
    obtain ⟨rest, hsuspended⟩ := hagenda.timed i hi
    simp [hfresh] at hsuspended
  rw [hnone, Nat.add_zero] at hcount
  obtain ⟨entry, hentry, hresumed⟩ := List.countP_pos_iff.mp
    (show 0 < entries.countP (fun other => other.resumed? == some i) by rw [hcount]; exact Nat.one_pos)
  have hsome : entry.resumed? = some i := by simpa using hresumed
  cases entry with
  | task j =>
      cases hsome
      exact hentry
  | again j =>
      cases hsome
      obtain ⟨rest, hsuspended⟩ := hagenda.fits _ hentry
      simp [hfresh] at hsuspended
  | _ => cases hsome

/-- The order of the timers does not matter. -/
theorem perm (hagenda : Agenda pool entries timers) {timers' : List Nat}
    (hperm : timers'.Perm timers) : Agenda pool entries timers' := by
  refine ⟨fun i => ?_, hagenda.fits, fun i hi => hagenda.timed i (hperm.mem_iff.mp hi)⟩
  rw [hperm.count_eq]
  exact hagenda.ready i

end Agenda

/-! ## What follows from a turn -/

namespace Turned

variable {pool : Pool τ ρ ε} {tasks : List (Status τ ρ ε)} {result : Except ε (Progress τ ρ)}
  {wakes : List Wake} {i : Nat}

theorem getElem?_self (hturned : Turned i tasks result pool.tasks wakes) (hlt : i < tasks.length) :
    pool.tasks[i]? = some (.after result) := by
  generalize htasks : pool.tasks = tasks' at hturned
  cases hturned with
  | paused hpaused => rw [List.getElem?_set_self hlt, hpaused, Status.after]
  | left hending => rw [List.getElem?_set_self hlt, Status.after_of_ended hending]
  | handedOn hending _ hne =>
      rw [List.getElem?_set_ne hne.symm, List.getElem?_set_self hlt, Status.after_of_ended hending]

/-- Those that are handed a seat are called, and nobody else is. -/
theorem filterMap_called? (hturned : Turned i tasks result pool.tasks wakes) :
    (wakes.filterMap Wake.entry?).filterMap pool.called? = wakes.filterMap Wake.granted? := by
  generalize htasks : pool.tasks = tasks' at hturned
  cases hturned with
  | @paused delay rest hpaused =>
      rcases delay with _ | _ | n
      · rfl
      · rfl
      · rfl
  | left => rfl
  | @handedOn _ next task hending hnext hne =>
      have hlt : next < (tasks.set i (.ended ‹_›)).length := by
        simpa using (List.getElem?_eq_some_iff.mp hnext).1
      have hgranted : pool.tasks[next]? = some (.granted task) := by
        rw [htasks, List.getElem?_set_self hlt]
      have hcalled : pool.called? (.task next) = some next := by rw [Pool.called?, hgranted]
      show [Entry.task next, .report i].filterMap pool.called? = [next]
      rw [List.filterMap_cons_some hcalled]
      rfl

/-- A failure is reported. -/
theorem findSome?_reported? (hturned : Turned i tasks result pool.tasks wakes)
    (hlt : i < tasks.length) :
    (wakes.filterMap Wake.entry?).findSome? pool.reported? = Turn.failure? ⟨i, .of result⟩ := by
  have hself := hturned.getElem?_self hlt
  have hreport : ∀ ending, Outcome.of result = .ended ending →
      [Entry.report i].findSome? pool.reported? = Turn.failure? ⟨i, .of result⟩ := by
    intro ending hending
    rw [Status.after_of_ended hending] at hself
    cases ending <;> simp [Pool.reported?, Pool.failureOf, hself, Turn.failure?, hending]
  generalize pool.tasks = tasks' at hturned
  cases hturned with
  | @paused delay rest hpaused =>
      subst hpaused
      rcases delay with _ | _ | n
      · rfl
      · rfl
      · rfl
  | left hending => exact hreport _ hending
  | handedOn hending _ _ =>
      rw [← hreport _ hending]
      rfl

/-- The new entries are about tasks that have had their seats. -/
theorem not_fresh (hturned : Turned i tasks result pool.tasks wakes) (hlt : i < tasks.length)
    {entry : Entry} (hentry : entry ∈ wakes.filterMap Wake.entry?) :
    ∃ j, entry.subject? = some j ∧ ∀ task, pool.tasks[j]? ≠ some (.fresh task) := by
  have hself : ∀ task, pool.tasks[i]? ≠ some (.fresh task) := by
    intro task
    rw [hturned.getElem?_self hlt]
    rcases result with failure | (result | ⟨delay, rest⟩) <;> simp [Status.after]
  generalize htasks : pool.tasks = tasks' at hturned
  cases hturned with
  | @paused delay rest hpaused =>
      obtain ⟨wake, hwake, hwakes⟩ := List.mem_filterMap.mp hentry
      rw [List.mem_singleton.mp hwake] at hwakes
      rcases delay with _ | _ | n
      · cases hwakes
      · cases hwakes
        exact ⟨i, rfl, htasks ▸ hself⟩
      · cases hwakes
  | left =>
      rw [List.mem_singleton.mp hentry]
      exact ⟨i, rfl, htasks ▸ hself⟩
  | @handedOn _ next task hending hnext hne =>
      have hlt : next < (tasks.set i (.ended ‹_›)).length := by
        simpa using (List.getElem?_eq_some_iff.mp hnext).1
      rcases List.mem_cons.mp hentry with rfl | hreport
      · refine ⟨next, rfl, fun other => ?_⟩
        rw [List.getElem?_set_self hlt]
        simp
      · rw [List.mem_singleton.mp hreport]
        exact ⟨i, rfl, htasks ▸ hself⟩

end Turned

namespace Course.Resumed

variable {routine : Coroutine σ τ ρ ε} {limit : Option Nat} {course next : Course σ τ ρ ε}
  {begun handed asked i : Nat} {wakes : List Wake}

theorem filterMap_called? (hstep : course.Resumed routine limit begun handed asked i next wakes) :
    (wakes.filterMap Wake.entry?).filterMap next.pool.called? =
      wakes.filterMap Wake.granted? := by
  cases hstep with
  | waits _ _ hwakes _ _ _ _ =>
      subst hwakes
      rfl
  | turn _ _ _ _ _ _ hturned _ => exact hturned.filterMap_called?

theorem failure_eq (hstep : course.Resumed routine limit begun handed asked i next wakes) :
    next.failure =
      course.failure.or ((wakes.filterMap Wake.entry?).findSome? next.pool.reported?) := by
  cases hstep with
  | waits _ _ hwakes _ _ hturns _ =>
      subst hwakes
      rw [failure, hturns, failure]
      exact (Option.or_none).symm
  | turn _ hstatus _ _ _ hturns hturned _ =>
      have hlt := (List.getElem?_eq_some_iff.mp hstatus).1
      rw [hturned.findSome?_reported? (by simpa using hlt), failure, hturns,
        List.findSome?_append, failure]
      simp

theorem not_fresh (hstep : course.Resumed routine limit begun handed asked i next wakes)
    {entry : Entry} (hentry : entry ∈ wakes.filterMap Wake.entry?) :
    ∃ j, entry.subject? = some j ∧ ∀ task, next.pool.tasks[j]? ≠ some (.fresh task) := by
  cases hstep with
  | waits _ _ hwakes _ _ _ _ =>
      subst hwakes
      cases hentry
  | turn _ hstatus _ _ _ _ hturned _ =>
      have hlt := (List.getElem?_eq_some_iff.mp hstatus).1
      exact hturned.not_fresh (by simpa using hlt) hentry

end Course.Resumed

end BuildRunner.Schedule
