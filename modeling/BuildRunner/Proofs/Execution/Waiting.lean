import BuildRunner.Proofs.Execution.Starting
import BuildRunner.Proofs.Machine.Ticking

/-!
# Waiting for a program

Asking for the status of a program leaves the books as they are, whatever the program answers.  A
poll leaves everything else as it is, too, while a wait lets all programs go on.
-/

namespace BuildRunner

variable {κ : Type}

/-- A program may close files, but it leaves their indices to them. -/
structure KeepsIndices (κ : Type) [Program κ] : Prop where
  advance : ∀ (time : Nat) (d : Disk) (program : κ),
    d.files.length ≤ (Program.advance time d program).1.files.length

namespace Machine

variable [Program κ]

theorem sameBooks_advanceOne (hkeeps : KeepsIndices κ) (m : Machine κ) (index : Nat) :
    SameBooks m (m.advanceOne index) := by
  unfold advanceOne
  split
  · exact isFrame_sameBooks.refl m
  · exact ⟨rfl, rfl, rfl, hkeeps.advance _ _ _⟩

theorem sameBooks_tick (hkeeps : KeepsIndices κ) (m : Machine κ) : SameBooks m m.tick :=
  tick_of_frame isFrame_sameBooks (sameBooks_advanceOne hkeeps)
    (fun _ => ⟨rfl, rfl, rfl, Nat.le_refl _⟩) m

theorem sameBooks_elapse (hkeeps : KeepsIndices κ) (ticks : Nat) (m : Machine κ) :
    SameBooks m (m.elapse ticks) :=
  elapse_of_frame isFrame_sameBooks (sameBooks_advanceOne hkeeps)
    (fun _ => ⟨rfl, rfl, rfl, Nat.le_refl _⟩) ticks m

theorem sameBooks_await (hkeeps : KeepsIndices κ) (index ticks : Nat) (m : Machine κ) :
    SameBooks m (m.await index ticks) := by
  induction ticks generalizing m with
  | zero => exact isFrame_sameBooks.refl m
  | succ ticks ih =>
      unfold await
      split
      · exact isFrame_sameBooks.trans (sameBooks_tick hkeeps m) (ih m.tick)
      · exact isFrame_sameBooks.refl m

theorem sameBooks_awaitEnd (hkeeps : KeepsIndices κ) (index : Nat) (m : Machine κ) :
    SameBooks m ((m.awaitEnd index).getD m) := by
  cases hend : m.awaitEnd index with
  | none => exact isFrame_sameBooks.refl m
  | some m' =>
      exact (repeatUntil_keeps (P := SameBooks m)
        (fun now _ hnow => isFrame_sameBooks.trans hnow (sameBooks_tick hkeeps now))
        (isFrame_sameBooks.refl m) hend).1

/-- Time changes nothing but the disk and the programs. -/
theorem onlyDisk_elapse (ticks : Nat) (m : Machine κ) :
    OnlyDisk (fun _ _ => True) m (m.elapse ticks) := by
  have hR : IsFrame (OnlyDisk (fun _ _ => True) : Machine κ → Machine κ → Prop) :=
    isFrame_onlyDisk ⟨fun _ => trivial, fun _ _ => trivial⟩
  have hadvance : ∀ (m : Machine κ) (index : Nat),
      OnlyDisk (fun _ _ => True) m (m.advanceOne index) := by
    intro m index
    unfold advanceOne
    split
    · exact ⟨trivial, rfl, rfl⟩
    · exact ⟨trivial, rfl, rfl⟩
  exact elapse_of_frame hR hadvance (fun _ => ⟨trivial, rfl, rfl⟩) ticks m

end Machine

namespace Act

theorem run_handleAt (id : Nat) (m : Machine κ) :
    (handleAt id : Act κ Handle).run m = (.ok ((m.handles[id]?).getD default), m) := rfl

theorem respects_handleAt (id : Nat) : Respects Quiet (handleAt id : Act κ Handle) :=
  fun m => isFrame_quiet.refl m

theorem respects_remarkWaitFailed (program text : String) :
    Respects Quiet (remarkWaitFailed program text : Act κ Unit) := respects_remark _

theorem accounts_getElem? (m : Machine κ) (id : Nat) :
    m.accounts[id]? = (m.handles[id]?).map Handle.account := List.getElem?_map

/-- The source of a handle may change without a change in the books. -/
theorem quiet_setHandle {id : Nat} {handle : Handle} {m : Machine κ}
    (hhandle : ∀ account, m.accounts[id]? = some account → handle.account = account) :
    Quiet m { m with handles := m.handles.set id handle } := by
  refine ⟨rfl, rfl, rfl, rfl, rfl, ?_, rfl, rfl⟩
  apply List.ext_getElem?
  intro i
  rw [accounts_getElem?, List.getElem?_set]
  by_cases hi : id = i
  · subst hi
    rw [if_pos rfl]
    rw [accounts_getElem?] at hhandle ⊢
    cases hold : m.handles[id]? with
    | none =>
        have hlength := List.getElem?_eq_none_iff.mp hold
        rw [if_neg (Nat.not_lt.mpr hlength)]
    | some old =>
        have hlength := (List.getElem?_eq_some_iff.mp hold).1
        rw [if_pos hlength]
        exact congrArg some (hhandle _ (by rw [hold]; rfl))
  · rw [if_neg hi, accounts_getElem?]

theorem account_consume (now : Answer) (handle : Handle) :
    (handle.consume now).1.account = handle.account := by
  unfold Handle.consume
  split <;> rfl

theorem quiet_takeAnswer {id : Nat} {handle : Handle} (now : Answer) {m : Machine κ}
    (hhandle : ∀ account, m.accounts[id]? = some account → handle.account = account) :
    Quiet m (stateAfter (takeAnswer id handle now) m) := by
  have hset : Quiet m { m with handles := m.handles.set id (handle.consume now).1 } := by
    refine quiet_setHandle fun account haccount => ?_
    rw [account_consume, hhandle account haccount]
  unfold takeAnswer setHandle
  generalize handle.consume now = consumed at hset ⊢
  obtain ⟨next, answer⟩ := consumed
  dsimp only at hset ⊢
  rw [stateAfter, run_bind, run_modify]
  apply isFrame_quiet.trans hset
  cases answer with
  | exited code => exact respects_pure isFrame_quiet _ _
  | running => exact respects_pure isFrame_quiet _ _
  | refused text =>
      exact respects_bind isFrame_quiet (respects_remarkWaitFailed _ _)
        (fun _ => respects_pure isFrame_quiet _) _
  | broken text => exact respects_throw isFrame_quiet _ _

variable [Program κ]

section

variable {R : Machine κ → Machine κ → Prop} {patience : Patience} (hR : IsFrame R)
  (hquiet : ∀ {m m'}, Quiet m m' → R m m') (haccounts : ∀ {m m'}, R m m' → m'.accounts = m.accounts)
  (hwait : ∀ index, Respects R (waitOnMachine index patience))

include hR hquiet haccounts hwait

theorem respects_wait (id : Nat) : Respects R (wait id patience) := by
  intro m
  -- whatever the machine does meanwhile, the books on the handle are those at the beginning
  have hanswer : ∀ (now : Answer) {m₁ : Machine κ}, R m m₁ →
      R m (stateAfter (takeAnswer id ((m.handles[id]?).getD default) now) m₁) := by
    intro now m₁ hfirst
    refine hR.trans hfirst (hquiet (quiet_takeAnswer now fun account haccount => ?_))
    rw [haccounts hfirst, accounts_getElem?] at haccount
    obtain ⟨handle, hhandle, rfl⟩ := Option.map_eq_some_iff.mp haccount
    rw [hhandle]
    rfl
  unfold wait
  rw [stateAfter, run_bind, run_handleAt]
  dsimp only
  split
  · exact hR.refl m
  · split
    · next index _ =>
        have hfirst := hwait index m
        rw [stateAfter] at hfirst
        rw [run_bind]
        generalize (waitOnMachine index patience).run m = outcome at hfirst
        obtain ⟨failure | _, m₁⟩ := outcome
        · exact hfirst
        · exact hanswer _ hfirst
    · exact hanswer .running (hR.refl m)

theorem respects_guardedWait (id : Nat) : Respects R (guardedWait id patience) := by
  refine respects_tryCatch hR (respects_wait hR hquiet haccounts hwait id) fun failure => ?_
  exact fun m => hquiet (respects_bind isFrame_quiet (respects_handleAt id) (fun handle =>
    respects_bind isFrame_quiet (respects_remarkWaitFailed _ _) fun _ =>
      respects_pure isFrame_quiet _) m)

end

theorem quiet_guardedWait_poll (id : Nat) :
    Respects Quiet (guardedWait id .poll : Act κ WaitResult) := by
  refine respects_guardedWait isFrame_quiet (fun hquiet => hquiet) (fun hquiet => hquiet.accounts)
    ?_ id
  exact fun _ m => isFrame_quiet.refl m

theorem sameBooks_guardedWait (hkeeps : KeepsIndices κ) (id : Nat) (patience : Patience) :
    Respects SameBooks (guardedWait id patience : Act κ WaitResult) := by
  refine respects_guardedWait isFrame_sameBooks .of_quiet (fun hbooks => hbooks.accounts) ?_ id
  intro index m
  cases patience with
  | poll => exact isFrame_sameBooks.refl m
  | forever => exact Machine.sameBooks_awaitEnd hkeeps index m
  | upTo ticks => exact Machine.sameBooks_await hkeeps index ticks m

end Act

/-- A program that runs for as many ticks as it was given words and does nothing. -/
structure Pause where
  left : Nat

instance : Program Pause where
  load d _ arguments _ _ := .ok (d, ⟨arguments.length⟩)
  advance _ d program := (d, ⟨program.left - 1⟩)
  answer program := if program.left = 0 then .exited 0 else .running

theorem loadsQuietly_pause : LoadsQuietly Pause where
  quiet hload := by
    cases hload
    exact ⟨rfl, rfl, Nat.le_refl _⟩

theorem keepsIndices_pause : KeepsIndices Pause where
  advance _ d _ := Nat.le_refl d.files.length

end BuildRunner
