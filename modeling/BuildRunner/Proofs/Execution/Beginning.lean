import BuildRunner.Proofs.Execution.Ending

/-!
# Beginning a run

The first turn of a run starts its program, keeps the path of the current directory, and polls for
the first time.  Either the run suspends then, or it has come to its end like any other: a handle
that was made has been closed, and the scratch files have been removed.
-/

namespace BuildRunner

variable {κ : Type}

/-- A run has come to its end in its first turn. -/
inductive Over (call : Call) (m : Machine κ) : Machine κ → Prop
  | unstarted {m₁ : Machine κ} (hspawns : Spawns m m₁) (hbooks : SameBooks m m₁) :
      Over call m (stateAfter (Act.cleanUp call) m₁)
  | ended {waiting : Waiting} {m₁ m' : Machine κ} (hcall : waiting.call = call)
      (hspawns : Spawns m m₁) (hstarted : Started m m₁ waiting.handle)
      (hsaved : m₁.disk.currentPath = .ok waiting.saved) (hends : Ends waiting m₁ m') :
      Over call m m'
  | lost {id : Nat} {m₁ : Machine κ} (hspawns : Spawns m m₁) (hstarted : Started m m₁ id)
      (hlost : ∀ path, m₁.disk.currentPath ≠ .ok path) :
      Over call m (stateAfter (Act.cleanUp call) (stateAfter (Act.close id) m₁))

/-- What the first turn of a run leads to.  A result is made of what its files held when its program
had been started. -/
inductive Begun (call : Call) (m : Machine κ) : Except Failure Polled × Machine κ → Prop
  | suspended {delay : Option Nat} {waiting : Waiting} {m' : Machine κ}
      (hcall : waiting.call = call) (hspawns : Spawns m m')
      (hstarted : Started m m' waiting.handle)
      (hsaved : m'.disk.currentPath = .ok waiting.saved) :
      Begun call m (.ok (.suspended delay waiting), m')
  | finished {result : JobResult} {code : Int} {m₁ m₂ m' : Machine κ} (hover : Over call m m')
      (hopens : m.disk.Opens m₁.disk)
      (hcollect : (Act.collect call code).run m₁ = (.ok result, m₂)) :
      Begun call m (.ok (.finished result), m')
  | failed {failure : Failure} {m' : Machine κ} (hover : Over call m m') :
      Begun call m (.error failure, m')

/-- What a first turn has opened is all that it leaves behind, without the scratch files. -/
theorem Over.disk {call : Call} {m m' : Machine κ} (hover : Over call m m') :
    ∃ d, m.disk.Opens d ∧ m'.disk = d.without call.capture.paths := by
  cases hover with
  | @unstarted m₁ hspawns hbooks =>
      refine ⟨m₁.disk, hspawns.disk, ?_⟩
      rw [Act.stateAfter_cleanUp]
  | @ended waiting m₁ _ hcall hspawns hstarted hsaved hends =>
      refine ⟨m₁.disk, hspawns.disk, ?_⟩
      rw [hends.disk, Disk.backAt_of_here hsaved, hcall]
  | @lost id m₁ hspawns hstarted hlost =>
      refine ⟨m₁.disk, hspawns.disk, ?_⟩
      rw [Act.stateAfter_cleanUp, ← (Act.respects_close id m₁).disk]

theorem Waited.begun {call : Call} {waiting : Waiting} {m m₁ : Machine κ}
    {outcome : Except Failure Polled × Machine κ} (hcall : waiting.call = call)
    (hspawns : Spawns m m₁) (hstarted : Started m m₁ waiting.handle)
    (hsaved : m₁.disk.currentPath = .ok waiting.saved) (hwaited : Waited waiting m₁ outcome) :
    Begun call m outcome := by
  cases hwaited with
  | suspended hquiet =>
      have hdisk := hquiet.disk
      exact .suspended hcall (isFrame_spawns.trans hspawns (.of_quiet hquiet))
        (hstarted.of_sameBooks_right (.of_quiet hquiet)) (hdisk ▸ hsaved)
  | @finished code result m₂ m₃ hbefore hcollect =>
      have hover : Over call m _ := .ended hcall hspawns hstarted hsaved
        (.intro hbefore ((Act.respects_collect _ _).of_run hcollect))
      have hopens : m.disk.Opens (stateAfter (Act.endWait waiting) m₂).disk := by
        rw [Act.disk_endWait, ← hbefore.disk, Disk.backAt_of_here hsaved]
        exact hspawns.disk
      exact .finished hover hopens (hcall ▸ hcollect)
  | failed hends => exact .failed (.ended hcall hspawns hstarted hsaved hends)

namespace Act

variable [Program κ]

theorem begun_beginCall (hload : LoadsQuietly κ) (call : Call) (m : Machine κ) :
    Begun call m ((beginCall call).run m) := by
  let starting : Act κ (Option Nat) := startTraced call.program call.argv call.out call.err
  have htried : Tried m (starting.run m) :=
    tried_startTraced hload call.program call.argv call.out call.err m
  rw [run_eq starting] at htried
  unfold beginCall
  rw [run_bind]
  rcases onFailure_cases starting (cleanUp call) m with
    ⟨_ | id, hresult, hrun⟩ | ⟨_, failure, hresult, hrun⟩
  · rw [hresult] at htried
    rw [hrun]
    generalize stateAfter starting m = m₁ at htried ⊢
    cases htried with
    | refused hspawns hbooks =>
        have hquiet := respects_collect call failureCode m₁
        have hover : Over call m _ := .unstarted (isFrame_spawns.trans hspawns (.of_quiet hquiet))
          (isFrame_sameBooks.trans hbooks (.of_quiet hquiet))
        dsimp only
        rw [run_bind]
        rcases ensuring_cases (collect call failureCode) (cleanUp call) m₁ with
          ⟨result, hresult, hend⟩ | ⟨failure, hend⟩
        · rw [hend]
          exact .finished hover hspawns.disk (Prod.ext hresult rfl)
        · rw [hend]
          exact .failed hover
  · rw [hresult] at htried
    rw [hrun]
    generalize stateAfter starting m = m₁ at htried ⊢
    cases htried with
    | started hspawns hstarted =>
        dsimp only
        rw [run_bind]
        have hpath := run_currentPath m₁
        have hsame : stateAfter currentPath m₁ = m₁ := by
          rw [stateAfter, hpath]
          cases m₁.disk.currentPath with
          | ok path => rfl
          | error code => rfl
        rcases onFailure_cases currentPath (ensuring (close id) (cleanUp call)) m₁ with
          ⟨saved, hsaved, hrun⟩ | ⟨_, failure, hlost, hrun⟩
        · rw [hrun, hsame]
          rw [resultOf, hpath] at hsaved
          have hcurrent : m₁.disk.currentPath = .ok saved := by
            cases hdisk : m₁.disk.currentPath with
            | ok path => simpa [hdisk] using hsaved
            | error code => simp [hdisk] at hsaved
          exact (waited_poll ⟨call, id, saved⟩ m₁).begun rfl hspawns hstarted hcurrent
        · rw [hrun, hsame, stateAfter_ensuring]
          rw [resultOf, hpath] at hlost
          refine .failed (.lost hspawns hstarted fun path hcurrent => ?_)
          simp [hcurrent] at hlost
  · rw [hresult] at htried
    rw [hrun]
    cases htried with
    | failed hspawns hbooks => exact .failed (.unstarted hspawns hbooks)

end Act

end BuildRunner
