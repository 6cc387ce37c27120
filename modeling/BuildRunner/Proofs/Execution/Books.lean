import BuildRunner.Proofs.Execution.Ending

/-!
# The books on handles

The handles that were made since some machine was looked at are accounted for by what is held and by
what was asked to close since then: the files that are held in addition belong to the new handles
that are open, each to one of them, and the handles that were asked to close are the new ones that
are closed, each asked once.  Starting a program and closing its handle keep these accounts.
-/

namespace BuildRunner

variable {κ : Type}

/-- The accounts `made` and the closings `since` are what `m` has in addition to `m₀`. -/
structure Books (m₀ m : Machine κ) (made : List (List Nat × Bool)) (since : List Nat) : Prop where
  accounts : m.accounts = m₀.accounts ++ made
  held : m.held = m₀.held ++ made.flatMap Prod.fst
  nodup : (made.flatMap Prod.fst).Nodup
  new : ∀ i ∈ made.flatMap Prod.fst, m₀.disk.files.length ≤ i ∧ i < m.disk.files.length
  closed : ∀ {k : Nat} {owned : List Nat}, made[k]? = some (owned, true) → owned = []
  closings : m.closings = m₀.closings ++ since
  once : since.Nodup
  mem_since : ∀ id, id ∈ since ↔
    ∃ (k : Nat) (owned : List Nat), id = m₀.accounts.length + k ∧ made[k]? = some (owned, true)
  files : m₀.disk.files.length ≤ m.disk.files.length

theorem Books.refl (m : Machine κ) : Books m m [] [] where
  accounts := by simp
  held := by simp
  nodup := by simp
  new := by simp
  closed := by simp
  closings := by simp
  once := by simp
  mem_since := by simp
  files := Nat.le_refl _

variable {m₀ m m' : Machine κ} {made : List (List Nat × Bool)} {since : List Nat} {id : Nat}

theorem Books.of_sameBooks (hbooks : Books m₀ m made since) (hsame : SameBooks m m') :
    Books m₀ m' made since where
  accounts := hsame.accounts.trans hbooks.accounts
  held := hsame.held.trans hbooks.held
  nodup := hbooks.nodup
  new := fun i hi => ⟨(hbooks.new i hi).1, Nat.lt_of_lt_of_le (hbooks.new i hi).2 hsame.files⟩
  closed := hbooks.closed
  closings := hsame.closings.trans hbooks.closings
  once := hbooks.once
  mem_since := hbooks.mem_since
  files := hbooks.files.trans hsame.files

theorem Books.of_started (hbooks : Books m₀ m made since) (hstarted : Started m m' id) :
    id = m₀.accounts.length + made.length ∧
      ∃ owned, Books m₀ m' (made ++ [(owned, false)]) since := by
  obtain ⟨owned, haccounts, hheld, hfiles⟩ := hstarted.handle
  have hid : id = m₀.accounts.length + made.length := by
    rw [hstarted.id, hbooks.accounts, List.length_append]
  refine ⟨hid, owned, ?_⟩
  have hflat : (made ++ [(owned, false)]).flatMap Prod.fst = made.flatMap Prod.fst ++ owned := by
    simp
  have hclosed : ∀ (k : Nat) (opened : List Nat), (made ++ [(owned, false)])[k]? = some (opened, true) ↔
      made[k]? = some (opened, true) := by
    intro k opened
    rw [List.getElem?_append]
    split
    · rfl
    · next hge =>
        rw [List.getElem?_eq_none (Nat.not_lt.mp hge)]
        cases k - made.length <;> simp
  refine ⟨?_, ?_, ?_, ?_, ?_, ?_, hbooks.once, ?_, hbooks.files.trans hstarted.files⟩
  · rw [haccounts, hbooks.accounts, List.append_assoc]
  · rw [hheld, hbooks.held, hflat, List.append_assoc]
  · rw [hflat, List.nodup_append]
    refine ⟨hbooks.nodup, hfiles.nodup, ?_⟩
    rintro i hi j hj rfl
    have hlt := (hbooks.new i hi).2
    have hle := (hfiles.new i hj).1
    omega
  · intro i hi
    rw [hflat, List.mem_append] at hi
    have hmore := hstarted.files
    have hless := hbooks.files
    rcases hi with hi | hi
    · have hold := hbooks.new i hi
      omega
    · have hnew := hfiles.new i hi
      omega
  · intro k opened hk
    exact hbooks.closed ((hclosed k opened).mp hk)
  · exact hstarted.closings.trans hbooks.closings
  · intro id
    rw [hbooks.mem_since]
    simp only [hclosed]

/-- The files of the other handles stay with them when one handle gives up its own. -/
theorem flatMap_set_closed {k : Nat} {owned : List Nat} (hk : made[k]? = some (owned, false))
    (hnodup : (made.flatMap Prod.fst).Nodup) :
    (made.set k ([], true)).flatMap Prod.fst =
      (made.flatMap Prod.fst).filter (!owned.contains ·) := by
  obtain ⟨hlt, hget⟩ := List.getElem?_eq_some_iff.mp hk
  obtain ⟨before, after, hmade, -, hset⟩ : ∃ before after, made = before ++ made[k] :: after ∧
      before.length = k ∧ made.set k ([], true) = before ++ ([], true) :: after :=
    List.exists_of_set hlt
  rw [hget] at hmade
  rw [hmade, List.flatMap_append, List.flatMap_cons, List.nodup_append] at hnodup
  obtain ⟨-, hrest, hapart⟩ := hnodup
  rw [List.nodup_append] at hrest
  obtain ⟨-, -, hapart'⟩ := hrest
  have hbefore : (before.flatMap Prod.fst).filter (!owned.contains ·) = before.flatMap Prod.fst := by
    rw [List.filter_eq_self]
    intro i hi
    have hout : i ∉ owned := fun ho => hapart i hi i (List.mem_append_left _ ho) rfl
    simpa using hout
  have hafter : (after.flatMap Prod.fst).filter (!owned.contains ·) = after.flatMap Prod.fst := by
    rw [List.filter_eq_self]
    intro i hi
    have hout : i ∉ owned := fun ho => hapart' i ho i hi rfl
    simpa using hout
  have howned : owned.filter (!owned.contains ·) = [] := by
    rw [List.filter_eq_nil_iff]
    intro i hi
    simpa using hi
  rw [hset, hmade, List.flatMap_append, List.flatMap_cons, List.flatMap_append, List.flatMap_cons,
    List.filter_append, List.filter_append, hbefore, hafter, howned]

theorem Books.of_closed (hbooks : Books m₀ m made since)
    (hheld : ∀ i ∈ m₀.held, i < m₀.disk.files.length) {k : Nat}
    (hclosed : Closed m m' (m₀.accounts.length + k)) :
    (∃ owned, made[k]? = some (owned, false)) ∧
      Books m₀ m' (made.set k ([], true)) (since ++ [m₀.accounts.length + k]) := by
  obtain ⟨owned, hhandle, hfilter⟩ := hclosed.held
  have hk : made[k]? = some (owned, false) := by
    rw [hbooks.accounts, List.getElem?_append_right (Nat.le_add_right _ _)] at hhandle
    simpa using hhandle
  have hflat := flatMap_set_closed hk hbooks.nodup
  have howned : ∀ i ∈ owned, m₀.disk.files.length ≤ i := by
    intro i hi
    refine (hbooks.new i ?_).1
    exact List.mem_flatMap.mpr ⟨(owned, false), List.mem_of_getElem? hk, hi⟩
  have hentry : ∀ (j : Nat) (opened : List Nat),
      (made.set k ([], true))[j]? = some (opened, true) ↔
        (j = k ∧ opened = []) ∨ (j ≠ k ∧ made[j]? = some (opened, true)) := by
    intro j opened
    rw [List.getElem?_set]
    by_cases hj : k = j
    · subst hj
      rw [if_pos rfl, if_pos (List.getElem?_eq_some_iff.mp hk).1]
      simp [eq_comm]
    · rw [if_neg hj]
      simp [eq_comm, hj]
  refine ⟨⟨owned, hk⟩, ?_, ?_, ?_, ?_, ?_, ?_, ?_, ?_, hbooks.files.trans hclosed.files⟩
  · rw [hclosed.accounts, hbooks.accounts, List.set_append_right _ _ (Nat.le_add_right _ _),
      Nat.add_sub_cancel_left]
  · rw [hfilter, hbooks.held, List.filter_append, hflat]
    congr 1
    rw [List.filter_eq_self]
    intro i hi
    have hout : i ∉ owned := fun ho => Nat.lt_irrefl _
      (Nat.lt_of_lt_of_le (hheld i hi) (howned i ho))
    simpa using hout
  · rw [hflat]
    exact hbooks.nodup.filter _
  · intro i hi
    rw [hflat, List.mem_filter] at hi
    exact ⟨(hbooks.new i hi.1).1, Nat.lt_of_lt_of_le (hbooks.new i hi.1).2 hclosed.files⟩
  · intro j opened hj
    rcases (hentry j opened).mp hj with ⟨-, hnil⟩ | ⟨-, hold⟩
    · exact hnil
    · exact hbooks.closed hold
  · rw [hclosed.closings, hbooks.closings, List.append_assoc]
  · rw [List.nodup_append]
    refine ⟨hbooks.once, by simp, ?_⟩
    rintro id hid other hother rfl
    rw [List.mem_singleton] at hother
    obtain ⟨j, opened, hj, hmade⟩ := (hbooks.mem_since id).mp hid
    have hsame : j = k := by omega
    rw [hsame, hk] at hmade
    simp at hmade
  · intro id
    rw [List.mem_append, List.mem_singleton, hbooks.mem_since]
    simp only [hentry]
    constructor
    · rintro (⟨j, opened, hj, hmade⟩ | rfl)
      · refine ⟨j, opened, hj, Or.inr ⟨?_, hmade⟩⟩
        rintro rfl
        rw [hk] at hmade
        simp at hmade
      · exact ⟨k, [], rfl, Or.inl ⟨rfl, rfl⟩⟩
    · rintro ⟨j, opened, hj, ⟨rfl, rfl⟩ | ⟨-, hmade⟩⟩
      · exact Or.inr hj
      · exact Or.inl ⟨j, opened, hj, hmade⟩

end BuildRunner
