import BuildRunner.Proofs.Execution.Books
import BuildRunner.Proofs.Execution.Memory

/-!
# Handles are released

Throughout a session every handle that was made in it is either closed or held by exactly one of the
suspended tasks.  When nothing is left in suspense, all of them have been closed, each was asked to
close once, and the files that were opened for them have been closed, and no others.
-/

namespace BuildRunner

open BuildRunner.Schedule

variable {κ : Type}

/-- The new handles that are open are held, each by one task; `held i` is the handle of task `i`. -/
structure Holdings (m₀ m : Machine κ) (made : List (List Nat × Bool)) (since : List Nat)
    (held : Nat → Option Nat) : Prop where
  books : Books m₀ m made since
  isOpen : ∀ {i id}, held i = some id →
    ∃ (k : Nat) (owned : List Nat), id = m₀.accounts.length + k ∧ made[k]? = some (owned, false)
  isHeld : ∀ {k : Nat} {owned : List Nat}, made[k]? = some (owned, false) →
    ∃ i, held i = some (m₀.accounts.length + k)
  apart : ∀ {i j id}, held i = some id → held j = some id → i = j

variable {m₀ m m' : Machine κ} {made : List (List Nat × Bool)} {since : List Nat}
  {held : Nat → Option Nat}

theorem Holdings.of_started {index id : Nat} (hholdings : Holdings m₀ m made since held)
    (hnone : held index = none) (hstarted : Started m m' id) :
    ∃ made', Holdings m₀ m' made' since (Function.update held index (some id)) := by
  obtain ⟨rfl, owned, hbooks⟩ := hholdings.books.of_started hstarted
  have hlast : (made ++ [(owned, false)])[made.length]? = some (owned, false) :=
    List.getElem?_concat_length
  have hlt : ∀ {i k}, held i = some (m₀.accounts.length + k) → k < made.length := by
    intro i k hi
    obtain ⟨j, opened, hj, hmade⟩ := hholdings.isOpen hi
    have hjlt := (List.getElem?_eq_some_iff.mp hmade).1
    omega
  refine ⟨made ++ [(owned, false)], hbooks, ?_, ?_, ?_⟩
  · intro i id hi
    by_cases hindex : i = index
    · subst hindex
      rw [Function.update_self, Option.some.injEq] at hi
      exact ⟨made.length, owned, hi.symm, hlast⟩
    · rw [Function.update_of_ne hindex] at hi
      obtain ⟨k, opened, hk, hmade⟩ := hholdings.isOpen hi
      refine ⟨k, opened, hk, ?_⟩
      rw [List.getElem?_append_left (List.getElem?_eq_some_iff.mp hmade).1]
      exact hmade
  · intro k opened hk
    by_cases hlength : k < made.length
    · rw [List.getElem?_append_left hlength] at hk
      obtain ⟨i, hi⟩ := hholdings.isHeld hk
      refine ⟨i, ?_⟩
      rw [Function.update_of_ne]
      · exact hi
      · rintro rfl
        simp [hnone] at hi
    · have hbound := (List.getElem?_eq_some_iff.mp hk).1
      rw [List.length_append, List.length_singleton] at hbound
      have hsame : k = made.length := by omega
      exact ⟨index, by rw [Function.update_self, hsame]⟩
  · intro i j id hi hj
    by_cases hii : i = index <;> by_cases hjj : j = index
    · rw [hii, hjj]
    · subst hii
      rw [Function.update_self, Option.some.injEq] at hi
      rw [Function.update_of_ne hjj, ← hi] at hj
      exact absurd (hlt hj) (Nat.lt_irrefl _)
    · subst hjj
      rw [Function.update_self, Option.some.injEq] at hj
      rw [Function.update_of_ne hii, ← hj] at hi
      exact absurd (hlt hi) (Nat.lt_irrefl _)
    · rw [Function.update_of_ne hii] at hi
      rw [Function.update_of_ne hjj] at hj
      exact hholdings.apart hi hj

theorem Holdings.of_closed {index id : Nat} (hholdings : Holdings m₀ m made since held)
    (hm₀ : ∀ i ∈ m₀.held, i < m₀.disk.files.length) (hsome : held index = some id)
    (hclosed : Closed m m' id) :
    ∃ made' since', Holdings m₀ m' made' since' (Function.update held index none) := by
  obtain ⟨k, owned, rfl, hmade⟩ := hholdings.isOpen hsome
  obtain ⟨-, hbooks⟩ := hholdings.books.of_closed hm₀ hclosed
  have hother : ∀ {j : Nat} {opened : List Nat},
      (made.set k ([], true))[j]? = some (opened, false) ↔ j ≠ k ∧ made[j]? = some (opened, false) := by
    intro j opened
    rw [List.getElem?_set]
    by_cases hj : k = j
    · subst hj
      rw [if_pos rfl, if_pos (List.getElem?_eq_some_iff.mp hmade).1]
      simp
    · rw [if_neg hj]
      simp [eq_comm, hj]
  refine ⟨_, _, hbooks, ?_, ?_, ?_⟩
  · intro i id hi
    by_cases hindex : i = index
    · subst hindex
      rw [Function.update_self] at hi
      cases hi
    · rw [Function.update_of_ne hindex] at hi
      obtain ⟨j, opened, hj, hopen⟩ := hholdings.isOpen hi
      refine ⟨j, opened, hj, hother.mpr ⟨?_, hopen⟩⟩
      rintro rfl
      exact hindex (hholdings.apart hi (hj ▸ hsome))
  · intro j opened hj
    obtain ⟨hne, hopen⟩ := hother.mp hj
    obtain ⟨i, hi⟩ := hholdings.isHeld hopen
    refine ⟨i, ?_⟩
    rw [Function.update_of_ne]
    · exact hi
    · rintro rfl
      rw [hi, Option.some.injEq] at hsome
      omega
  · intro i j id hi hj
    have hne : ∀ {i}, Function.update held index none i = some id → i ≠ index := by
      rintro i hsome rfl
      rw [Function.update_self] at hsome
      cases hsome
    rw [Function.update_of_ne (hne hi)] at hi
    rw [Function.update_of_ne (hne hj)] at hj
    exact hholdings.apart hi hj

/-- What a turn does to the books agrees with what it does to the handle of its task. -/
theorem Holdings.of_trade {index : Nat} {after : Option Nat}
    (hholdings : Holdings m₀ m made since held)
    (hm₀ : ∀ i ∈ m₀.held, i < m₀.disk.files.length) (htrade : Trade m m' (held index) after) :
    ∃ made' since', Holdings m₀ m' made' since' (Function.update held index after) := by
  generalize hbefore : held index = before at htrade
  cases htrade with
  | same hsame =>
      rw [← hbefore, Function.update_eq_self]
      exact ⟨made, since, hholdings.books.of_sameBooks hsame, hholdings.isOpen, hholdings.isHeld,
        hholdings.apart⟩
  | started hstarted =>
      obtain ⟨made', hafter⟩ := hholdings.of_started hbefore hstarted
      exact ⟨made', since, hafter⟩
  | closed hclosed => exact hholdings.of_closed hm₀ hbefore hclosed
  | both hstarted hclosed =>
      obtain ⟨made', hbetween⟩ := hholdings.of_started hbefore hstarted
      have hafter := hbetween.of_closed hm₀ (Function.update_self index _ held) hclosed
      rwa [Function.update_idem] at hafter

/-- What `m` has in addition to `m₀` has been given back: the files that were opened for programs
are closed, the handles from before are as they were, the new ones are closed, and of the new ones
each was asked to close once. -/
structure Released (m₀ m : Machine κ) : Prop where
  held : m.held = m₀.held
  former : m.accounts.take m₀.accounts.length = m₀.accounts
  closed : ∀ account ∈ m.accounts.drop m₀.accounts.length, account = ([], true)
  once : ∃ since, m.closings = m₀.closings ++ since ∧
    since.Perm (List.range' m₀.accounts.length (m.accounts.length - m₀.accounts.length))

/-- Where no task holds a handle, everything has been released. -/
theorem Holdings.released (hholdings : Holdings m₀ m made since held)
    (hnone : ∀ i, held i = none) : Released m₀ m := by
  have hbooks := hholdings.books
  have hclosed : ∀ account ∈ made, account = ([], true) := by
    rintro ⟨owned, closed⟩ haccount
    obtain ⟨k, hk⟩ := List.mem_iff_getElem?.mp haccount
    cases closed with
    | true => rw [hbooks.closed hk]
    | false =>
        obtain ⟨i, hi⟩ := hholdings.isHeld hk
        rw [hnone i] at hi
        cases hi
  have hfiles : made.flatMap Prod.fst = [] := by
    rw [List.flatMap_eq_nil_iff]
    intro account haccount
    rw [hclosed account haccount]
  have hmade : m.accounts.drop m₀.accounts.length = made := by
    rw [hbooks.accounts, List.drop_left]
  refine ⟨?_, ?_, ?_, since, hbooks.closings, ?_⟩
  · rw [hbooks.held, hfiles, List.append_nil]
  · rw [hbooks.accounts, List.take_left]
  · rw [hmade]
    exact hclosed
  · rw [List.perm_ext_iff_of_nodup hbooks.once List.nodup_range']
    intro id
    rw [hbooks.mem_since, List.mem_range'_1, hbooks.accounts, List.length_append]
    constructor
    · rintro ⟨k, owned, rfl, hk⟩
      have hlt := (List.getElem?_eq_some_iff.mp hk).1
      omega
    · rintro ⟨hle, hlt⟩
      have hk : id - m₀.accounts.length < made.length := by omega
      refine ⟨id - m₀.accounts.length, [], by omega, ?_⟩
      rw [List.getElem?_eq_getElem hk, hclosed _ (List.getElem_mem hk)]

end BuildRunner
