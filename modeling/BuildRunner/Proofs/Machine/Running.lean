import BuildRunner.Execution.Cooperative

/-!
# Running actions

An action is run on a state and gives a result and another state; the actions on machines and those
on disks are of this kind.  What an action may change is said by a relation between the state before
and the state after, whether the action fails or not.  A relation that is reflexive and transitive
is carried through sequences, handlers and final actions, so that it is enough to look at the steps
that change something.
-/

namespace BuildRunner

variable {σ ε α β : Type}

/-- The state after an action. -/
def stateAfter (action : ExceptT ε (StateM σ) α) (s : σ) : σ := (action.run s).2

/-- The result of an action. -/
def resultOf (action : ExceptT ε (StateM σ) α) (s : σ) : Except ε α := (action.run s).1

theorem run_eq (action : ExceptT ε (StateM σ) α) (s : σ) :
    action.run s = (resultOf action s, stateAfter action s) := rfl

theorem stateAfter_of_run {action : ExceptT ε (StateM σ) α} {s t : σ} {result : Except ε α}
    (hrun : action.run s = (result, t)) : stateAfter action s = t := congrArg Prod.snd hrun

theorem resultOf_of_run {action : ExceptT ε (StateM σ) α} {s t : σ} {result : Except ε α}
    (hrun : action.run s = (result, t)) : resultOf action s = result := congrArg Prod.fst hrun

/-! ## Steps of actions -/

theorem run_pure (a : α) (s : σ) : (pure a : ExceptT ε (StateM σ) α).run s = (.ok a, s) := rfl

theorem run_throw (e : ε) (s : σ) :
    (throw e : ExceptT ε (StateM σ) α).run s = (.error e, s) := rfl

theorem run_get (s : σ) : (get : ExceptT ε (StateM σ) σ).run s = (.ok s, s) := rfl

theorem run_set (t s : σ) : (set t : ExceptT ε (StateM σ) PUnit).run s = (.ok ⟨⟩, t) := rfl

theorem run_modify (f : σ → σ) (s : σ) :
    (modify f : ExceptT ε (StateM σ) PUnit).run s = (.ok ⟨⟩, f s) := rfl

theorem run_bind (action : ExceptT ε (StateM σ) α) (next : α → ExceptT ε (StateM σ) β) (s : σ) :
    (action >>= next).run s =
      match action.run s with
      | (.ok a, t) => (next a).run t
      | (.error e, t) => (.error e, t) := by
  unfold ExceptT.run
  simp only [bind, ExceptT.bind, ExceptT.mk, StateT.bind, ExceptT.bindCont]
  rcases action s with ⟨_ | a, t⟩
  · rfl
  · rfl

/-- A sequence that succeeds consists of two actions that do. -/
theorem run_bind_eq_ok {action : ExceptT ε (StateM σ) α} {next : α → ExceptT ε (StateM σ) β}
    {s u : σ} {b : β} (hrun : (action >>= next).run s = (.ok b, u)) :
    ∃ a t, action.run s = (.ok a, t) ∧ (next a).run t = (.ok b, u) := by
  rw [run_bind] at hrun
  rcases hfirst : action.run s with ⟨e | a, t⟩
  · rw [hfirst] at hrun
    cases hrun
  · rw [hfirst] at hrun
    exact ⟨a, t, rfl, hrun⟩

theorem run_map (f : α → β) (action : ExceptT ε (StateM σ) α) (s : σ) :
    (f <$> action).run s =
      match action.run s with
      | (.ok a, t) => (.ok (f a), t)
      | (.error e, t) => (.error e, t) := by
  unfold ExceptT.run
  simp only [Functor.map, ExceptT.map, ExceptT.mk, bind, StateT.bind]
  rcases action s with ⟨_ | a, t⟩
  · rfl
  · rfl

theorem run_tryCatch (action : ExceptT ε (StateM σ) α) (handler : ε → ExceptT ε (StateM σ) α)
    (s : σ) :
    (tryCatch action handler).run s =
      match action.run s with
      | (.ok a, t) => (.ok a, t)
      | (.error e, t) => (handler e).run t := by
  unfold ExceptT.run
  simp only [tryCatch, tryCatchThe, MonadExceptOf.tryCatch, ExceptT.tryCatch, ExceptT.mk, bind,
    StateT.bind]
  rcases action s with ⟨_ | a, t⟩
  · rfl
  · rfl

/-! ## What an action may change -/

/-- A relation that holds over any number of steps if it holds over each of them. -/
structure IsFrame (R : σ → σ → Prop) : Prop where
  refl : ∀ s, R s s
  trans : ∀ {s t u}, R s t → R t u → R s u

/-- Whether it fails or not, the action changes a state only as the relation allows. -/
def Respects (R : σ → σ → Prop) (action : ExceptT ε (StateM σ) α) : Prop :=
  ∀ s, R s (stateAfter action s)

theorem Respects.of_run {R : σ → σ → Prop} {action : ExceptT ε (StateM σ) α} {s t : σ}
    {result : Except ε α} (haction : Respects R action) (hrun : action.run s = (result, t)) :
    R s t := by
  have hafter := haction s
  rw [stateAfter, hrun] at hafter
  exact hafter

theorem Respects.mono {R S : σ → σ → Prop} {action : ExceptT ε (StateM σ) α}
    (haction : Respects R action) (hRS : ∀ s t, R s t → S s t) : Respects S action :=
  fun s => hRS _ _ (haction s)

section

variable {R : σ → σ → Prop} (hR : IsFrame R)

include hR

theorem respects_pure (a : α) : Respects R (pure a : ExceptT ε (StateM σ) α) := hR.refl

theorem respects_throw (e : ε) : Respects R (throw e : ExceptT ε (StateM σ) α) := hR.refl

theorem respects_get : Respects R (get : ExceptT ε (StateM σ) σ) := hR.refl

theorem respects_bind {action : ExceptT ε (StateM σ) α} {next : α → ExceptT ε (StateM σ) β}
    (haction : Respects R action) (hnext : ∀ a, Respects R (next a)) :
    Respects R (action >>= next) := by
  intro s
  have hfirst := haction s
  rw [stateAfter] at hfirst ⊢
  rw [run_bind]
  rcases hrun : action.run s with ⟨_ | a, t⟩
  · rw [hrun] at hfirst
    exact hfirst
  · rw [hrun] at hfirst
    exact hR.trans hfirst (hnext a t)

omit hR in
theorem respects_map {action : ExceptT ε (StateM σ) α} (haction : Respects R action)
    (f : α → β) : Respects R (f <$> action) := by
  intro s
  have hfirst := haction s
  rw [stateAfter] at hfirst ⊢
  rw [run_map]
  rcases hrun : action.run s with ⟨_ | a, t⟩
  · rw [hrun] at hfirst
    exact hfirst
  · rw [hrun] at hfirst
    exact hfirst

theorem respects_tryCatch {action : ExceptT ε (StateM σ) α}
    {handler : ε → ExceptT ε (StateM σ) α} (haction : Respects R action)
    (hhandler : ∀ e, Respects R (handler e)) : Respects R (tryCatch action handler) := by
  intro s
  have hfirst := haction s
  rw [stateAfter] at hfirst ⊢
  rw [run_tryCatch]
  rcases hrun : action.run s with ⟨e | a, t⟩
  · rw [hrun] at hfirst
    exact hR.trans hfirst (hhandler e t)
  · rw [hrun] at hfirst
    exact hfirst

theorem respects_forM {items : List β} {action : β → ExceptT ε (StateM σ) PUnit}
    (haction : ∀ item ∈ items, Respects R (action item)) : Respects R (items.forM action) := by
  induction items with
  | nil => exact respects_pure hR _
  | cons item items ih =>
      refine respects_bind hR (haction item (by simp)) fun _ => ih fun other hother => ?_
      exact haction other (List.mem_cons_of_mem item hother)

end

/-- Behind an action that changes nothing a sequence goes on from the same state. -/
theorem run_bind_of_unchanged {action : ExceptT ε (StateM σ) α}
    {next : α → ExceptT ε (StateM σ) β} {s u : σ} {result : Except ε β}
    (haction : Respects Eq action) (hrun : (action >>= next).run s = (result, u)) :
    (u = s ∧ ∃ e, result = .error e) ∨
      ∃ a, action.run s = (.ok a, s) ∧ (next a).run s = (result, u) := by
  have hstate := haction s
  rw [stateAfter] at hstate
  rw [run_bind] at hrun
  rcases hfirst : action.run s with ⟨e | a, t⟩
  · rw [hfirst] at hrun hstate
    cases hrun
    exact Or.inl ⟨hstate.symm, e, rfl⟩
  · rw [hfirst] at hrun hstate
    dsimp only at hstate
    subst t
    exact Or.inr ⟨a, rfl, hrun⟩

/-! ## What an action fails with -/

/-- The action fails only with failures of a certain kind. -/
def FailsAs (P : ε → Prop) (action : ExceptT ε (StateM σ) α) : Prop :=
  ∀ s e, resultOf action s = .error e → P e

theorem FailsAs.failure {P : ε → Prop} {action : ExceptT ε (StateM σ) α} {s t : σ} {e : ε}
    (haction : FailsAs P action) (hrun : action.run s = (.error e, t)) : P e :=
  haction s e (resultOf_of_run hrun)

theorem failsAs_pure {P : ε → Prop} (a : α) : FailsAs P (pure a : ExceptT ε (StateM σ) α) := by
  rintro s e herror
  cases herror

theorem failsAs_of_ok {P : ε → Prop} {action : ExceptT ε (StateM σ) α}
    (haction : ∀ s, ∃ a, resultOf action s = .ok a) : FailsAs P action := by
  intro s e herror
  obtain ⟨a, hok⟩ := haction s
  rw [hok] at herror
  cases herror

theorem failsAs_throw {P : ε → Prop} {e : ε} (he : P e) :
    FailsAs P (throw e : ExceptT ε (StateM σ) α) := by
  rintro s e' herror
  cases herror
  exact he

theorem failsAs_bind {P : ε → Prop} {action : ExceptT ε (StateM σ) α}
    {next : α → ExceptT ε (StateM σ) β} (haction : FailsAs P action)
    (hnext : ∀ a, FailsAs P (next a)) : FailsAs P (action >>= next) := by
  intro s e herror
  rw [resultOf, run_bind] at herror
  have hfirst := haction s
  rw [resultOf] at hfirst
  rcases hrun : action.run s with ⟨e' | a, t⟩
  · rw [hrun] at hfirst herror
    cases herror
    exact hfirst e rfl
  · rw [hrun] at herror
    exact hnext a t e herror

/-! ## What an action ends with -/

/-- From states with `I` the action ends in such a state, either with a value for which `Q` holds or
with a failure for which `P` does. -/
def EndsWith (I : σ → Prop) (Q : α → Prop) (P : ε → Prop) (action : ExceptT ε (StateM σ) α) : Prop :=
  ∀ s, I s → I (stateAfter action s) ∧
    match resultOf action s with
    | .ok a => Q a
    | .error e => P e

section

variable {I : σ → Prop} {Q : α → Prop} {P : ε → Prop}

theorem endsWith_pure {a : α} (ha : Q a) :
    EndsWith I Q P (pure a : ExceptT ε (StateM σ) α) := fun _ hs => ⟨hs, ha⟩

theorem endsWith_throw {e : ε} (he : P e) :
    EndsWith I Q P (throw e : ExceptT ε (StateM σ) α) := fun _ hs => ⟨hs, he⟩

theorem endsWith_get : EndsWith I I P (get : ExceptT ε (StateM σ) σ) := fun _ hs => ⟨hs, hs⟩

theorem endsWith_set {s : σ} (hs : I s) :
    EndsWith I (fun _ => True) P (set s : ExceptT ε (StateM σ) PUnit) := fun _ _ => ⟨hs, trivial⟩

theorem endsWith_bind {R : β → Prop} {action : ExceptT ε (StateM σ) α}
    {next : α → ExceptT ε (StateM σ) β} (haction : EndsWith I Q P action)
    (hnext : ∀ a, Q a → EndsWith I R P (next a)) : EndsWith I R P (action >>= next) := by
  intro s hs
  obtain ⟨hafter, hresult⟩ := haction s hs
  rw [stateAfter] at hafter ⊢
  rw [resultOf] at hresult ⊢
  rw [run_bind]
  rcases hrun : action.run s with ⟨e | a, t⟩
  · rw [hrun] at hafter hresult
    exact ⟨hafter, hresult⟩
  · rw [hrun] at hafter hresult
    exact hnext a hresult t hafter

theorem endsWith_tryCatch {P' : ε → Prop} {action : ExceptT ε (StateM σ) α}
    {handler : ε → ExceptT ε (StateM σ) α} (haction : EndsWith I Q P action)
    (hhandler : ∀ e, P e → EndsWith I Q P' (handler e)) :
    EndsWith I Q P' (tryCatch action handler) := by
  intro s hs
  obtain ⟨hafter, hresult⟩ := haction s hs
  rw [stateAfter] at hafter ⊢
  rw [resultOf] at hresult ⊢
  rw [run_tryCatch]
  rcases hrun : action.run s with ⟨e | a, t⟩
  · rw [hrun] at hafter hresult
    exact hhandler e hresult t hafter
  · rw [hrun] at hafter hresult
    exact ⟨hafter, hresult⟩

theorem EndsWith.state {action : ExceptT ε (StateM σ) α} {s t : σ} {result : Except ε α}
    (haction : EndsWith I Q P action) (hs : I s) (hrun : action.run s = (result, t)) : I t := by
  have hend := (haction s hs).1
  rwa [stateAfter_of_run hrun] at hend

theorem EndsWith.failure {action : ExceptT ε (StateM σ) α} {s t : σ} {e : ε}
    (haction : EndsWith I Q P action) (hs : I s) (hrun : action.run s = (.error e, t)) : P e := by
  have hend := (haction s hs).2
  rwa [resultOf_of_run hrun] at hend

theorem EndsWith.mono {Q' : α → Prop} {P' : ε → Prop} {action : ExceptT ε (StateM σ) α}
    (haction : EndsWith I Q P action) (hQ : ∀ a, Q a → Q' a) (hP : ∀ e, P e → P' e) :
    EndsWith I Q' P' action := by
  intro s hs
  obtain ⟨hafter, hresult⟩ := haction s hs
  refine ⟨hafter, ?_⟩
  cases hend : resultOf action s with
  | ok a =>
      rw [hend] at hresult
      exact hQ a hresult
  | error e =>
      rw [hend] at hresult
      exact hP e hresult

end

/-! ## Handlers and final actions -/

namespace Act

variable {κ : Type}

theorem run_ensuring (action : Act κ α) (final : Act κ Unit) (m : Machine κ) :
    (ensuring action final).run m =
      match final.run (stateAfter action m) with
      | (.ok _, m') => (resultOf action m, m')
      | (.error failure, m') => (.error failure, m') := by
  unfold ensuring
  rw [run_bind]
  have hfirst : (tryCatch (Except.ok <$> action) fun failure => pure (.error failure) :
      Act κ (Except Failure α)).run m = (.ok (resultOf action m), stateAfter action m) := by
    rw [run_tryCatch, run_map, resultOf, stateAfter]
    rcases action.run m with ⟨failure | a, m'⟩
    · rfl
    · rfl
  rw [hfirst]
  dsimp only
  rw [run_bind]
  rcases final.run (stateAfter action m) with ⟨failure | a, m'⟩
  · rfl
  · dsimp only
    cases resultOf action m with
    | error failure => rfl
    | ok a => rfl

/-- The final action is taken in any case; a result is that of the first action. -/
theorem ensuring_cases (action : Act κ α) (final : Act κ Unit) (m : Machine κ) :
    (∃ a, resultOf action m = .ok a ∧
        (ensuring action final).run m = (.ok a, stateAfter final (stateAfter action m))) ∨
      ∃ failure, (ensuring action final).run m =
        (.error failure, stateAfter final (stateAfter action m)) := by
  rw [run_ensuring, run_eq final]
  cases resultOf final (stateAfter action m) with
  | error failure => exact Or.inr ⟨failure, rfl⟩
  | ok _ =>
      cases resultOf action m with
      | error failure => exact Or.inr ⟨failure, rfl⟩
      | ok a => exact Or.inl ⟨a, rfl, rfl⟩

theorem stateAfter_ensuring (action : Act κ α) (final : Act κ Unit) (m : Machine κ) :
    stateAfter (ensuring action final) m = stateAfter final (stateAfter action m) := by
  rw [stateAfter]
  rcases ensuring_cases action final m with ⟨a, -, hrun⟩ | ⟨failure, hrun⟩
  · rw [hrun]
  · rw [hrun]

/-- The final action is taken only after a failure, and some failure remains. -/
theorem onFailure_cases (action : Act κ α) (final : Act κ Unit) (m : Machine κ) :
    (∃ a, resultOf action m = .ok a ∧
        (onFailure action final).run m = (.ok a, stateAfter action m)) ∨
      ∃ failure other, resultOf action m = .error failure ∧
        (onFailure action final).run m =
          (.error other, stateAfter final (stateAfter action m)) := by
  unfold onFailure
  rw [run_tryCatch, run_eq action]
  cases resultOf action m with
  | ok a => exact Or.inl ⟨a, rfl, rfl⟩
  | error failure =>
      dsimp only
      rw [run_bind, run_eq final]
      cases resultOf final (stateAfter action m) with
      | error other => exact Or.inr ⟨failure, other, rfl, rfl⟩
      | ok _ => exact Or.inr ⟨failure, failure, rfl, rfl⟩

section

variable {R : Machine κ → Machine κ → Prop} (hR : IsFrame R)

include hR

theorem respects_ensuring {action : Act κ α} {final : Act κ Unit} (haction : Respects R action)
    (hfinal : Respects R final) : Respects R (ensuring action final) := by
  intro m
  rw [stateAfter_ensuring]
  exact hR.trans (haction m) (hfinal _)

theorem respects_onFailure {action : Act κ α} {final : Act κ Unit} (haction : Respects R action)
    (hfinal : Respects R final) : Respects R (onFailure action final) :=
  respects_tryCatch hR haction fun failure =>
    respects_bind hR hfinal fun _ => respects_throw hR failure

end

end Act

end BuildRunner
