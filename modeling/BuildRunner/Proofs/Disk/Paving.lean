import BuildRunner.Proofs.Disk.Copying
import BuildRunner.Proofs.Disk.Making

/-!
# Where a made path leads

However a path is spelled, with links on its way and with `..` behind directories that are missing:
once its missing directories are made without a failure it leads into a directory, or it is shut off
and nothing can be made behind it.
-/

namespace BuildRunner

variable {d d' : Disk} {path : String} {existOk : Bool} {result : Except Failure Unit}

/-- The names of the path lead into a directory, which may be gone. -/
structure Disk.IsEntered (d : Disk) (path : String) : Prop where
  ne_empty : path ≠ ""
  way : ∃ found, enter d.tree linkLimit (startPlace d.cwd path) (pathNames path) = .ok found

/-- No directory can be made behind the path. -/
structure Disk.IsBlocked (d : Disk) (path : String) : Prop where
  noRoom : d.NoRoom path
  shut : d.Shut path

theorem Disk.Enters.isEntered {base : Location} (henters : d.Enters path base) :
    d.IsEntered path := by
  obtain ⟨left, henter⟩ := henters.way
  exact ⟨henters.ne_empty, _, henter⟩

/-- What is taken leaves no room. -/
theorem Disk.noRoom_of_taken (hmake : d.makeDirectory path = .error .fileExists) :
    d.NoRoom path := by
  obtain ⟨above, tip, htip, htaken⟩ := Disk.makeDirectory_taken hmake
  obtain ⟨-, hlast, before, habove⟩ := Disk.tip_eq_ok_iff.mp htip
  intro front name parent left hinit henter hdot hdotdot
  rcases List.eq_nil_or_concat (pathNames path) with hnil | ⟨init, last, hnames⟩
  · rw [hnil, List.prefix_nil] at hinit
    exact absurd hinit (by simp)
  rw [List.concat_eq_append] at hnames
  rw [hnames, List.dropLast_concat] at habove
  rw [hnames] at hinit
  rcases List.prefix_concat_iff.mp hinit with hwhole | hbefore
  · obtain ⟨rfl, hsame⟩ := List.append_inj' hwhole rfl
    obtain rfl : name = last := by simpa using hsame
    rw [habove] at henter
    cases henter
    have hname : (pathNames path).getLast? = some name := by rw [hnames, List.getLast?_concat]
    rw [lastTip_eq_name_iff.mpr ⟨hname, hdot, hdotdot, rfl⟩] at hlast
    obtain ⟨-, kind, hkind⟩ := htaken name _ hlast.symm
    rw [Place.kindOf_eq, if_pos rfl] at hkind
    rw [hkind]
    exact Option.some_ne_none kind
  · exact kindAt_ne_none_of_enter habove hbefore henter hdot hdotdot

/-- Making the last directory of a path leaves the path entered or, where there is something, without
room. -/
theorem entered_of_makeHere (hcwd : d.tree.kindAt d.cwd.base = some .directory)
    (hrun : (DiskM.makeHere existOk path).run d = (result, d')) :
    (result = .ok () → d'.IsEntered path) ∧
      ∀ failure, result = .error failure → failure.IsTaken → d'.NoRoom path := by
  rcases DiskM.makeHere_cases hrun with
    ⟨rfl, hmade⟩ | ⟨rfl, ⟨rfl, -, hthere⟩ | ⟨failure, rfl, htaken⟩⟩
  · obtain ⟨location, -, -, henters⟩ := Disk.enters_of_makeDirectory hcwd hmade
    refine ⟨fun _ => henters.isEntered, ?_⟩
    rintro failure ⟨⟩
  · refine ⟨fun _ => ⟨?_, DiskM.exists_enter_of_isDirectory hthere⟩, ?_⟩
    · obtain ⟨place, hlocate⟩ := Disk.exists_place_of_isDirectory hthere
      exact Disk.ne_empty_of_checkPath (Disk.locate_eq_ok_iff.mp hlocate).1
    · rintro failure ⟨⟩
  · constructor
    · rintro ⟨⟩
    · rintro other ⟨⟩ hother
      exact Disk.noRoom_of_taken (htaken hother)

/-- A `.` behind the front of a path changes nothing about where it leads. -/
theorem entered_or_blocked_of_dot {head : String} (hne : head ≠ "") (hfront : IsFront head path)
    (hnames : pathNames path = pathNames head ++ ["."])
    (hhead : d.IsEntered head ∨ d.NoRoom head) : d.IsEntered path ∨ d.IsBlocked path := by
  by_cases hentered : d.IsEntered head
  · obtain ⟨-, ⟨place, left⟩, henter⟩ := hentered
    have hpath : path ≠ "" := by
      rintro rfl
      exact absurd hnames (by simp [show pathNames "" = [] from rfl])
    refine Or.inl ⟨hpath, (place, left), ?_⟩
    rw [hfront.start, hnames, enter_append, henter]
    simp only [Except.bind]
    rw [enter_singleton, if_pos rfl]
  · have hroom := hhead.resolve_left hentered
    refine Or.inr ⟨fun front name parent left hinit henter hdot hdotdot => ?_, fun found henter => ?_⟩
    · rw [hfront.start] at henter
      rw [hnames] at hinit
      rcases List.prefix_concat_iff.mp hinit with hwhole | hbefore
      · obtain ⟨-, hlast⟩ := List.append_inj' hwhole rfl
        exact absurd (by simpa using hlast) hdot
      · exact hroom front name parent left hbefore henter hdot hdotdot
    · rw [hfront.start, hnames, List.dropLast_concat] at henter
      exact hentered ⟨hne, found, henter⟩

/-- The disk once the missing directories of a path were to be made. -/
theorem entered_of_makeDirectoriesFrom {fuel : Nat}
    (hcwd : d.tree.kindAt d.cwd.base = some .directory) (hfuel : path.length < fuel)
    (hrun : (DiskM.makeDirectoriesFrom existOk fuel path).run d = (result, d')) :
    (result = .ok () → d'.IsEntered path ∨ d'.IsBlocked path) ∧
      ∀ failure, result = .error failure → failure.IsTaken → d'.NoRoom path := by
  induction fuel generalizing path d d' result with
  | zero => exact absurd hfuel (Nat.not_lt_zero _)
  | succ fuel ih =>
      rcases hsplit : DiskM.splitLast path with ⟨head, tail⟩
      rcases DiskM.makeDirectoriesFrom_cases hsplit hrun with
        ⟨-, hhere⟩ | ⟨hhead, htail, -, first, made, habove, hthen⟩
      · obtain ⟨hok, htaken⟩ := entered_of_makeHere hcwd hhere
        exact ⟨fun hresult => Or.inl (hok hresult), htaken⟩
      · have hfront := isFront_splitLast hsplit hhead htail
        have hgrows : Respects Disk.Grows (DiskM.makeDirectoriesFrom existOk fuel head) :=
          DiskM.respects_makeDirectoriesFrom isFrame_diskGrows existOk fuel fun _ _ _ _ hnul =>
            Disk.grows_of_makeDirectory hnul
        have hmade := hgrows.of_run habove
        have hcwd' : made.tree.kindAt made.cwd.base = some .directory := by
          rw [hmade.current]
          exact hmade.tree _ _ hcwd
        obtain ⟨hok, htaken⟩ := ih hcwd
          (Nat.lt_of_lt_of_le (length_splitLast_lt hsplit htail) (Nat.lt_succ_iff.mp hfuel)) habove
        rcases hthen with ⟨failure, rfl, hother, rfl, rfl⟩ | ⟨hfirst, ⟨rfl, rfl, rfl⟩ | hhere⟩
        · constructor
          · rintro ⟨⟩
          · rintro _ ⟨⟩ hfailure
            exact absurd hfailure hother
        · constructor
          · intro _
            refine entered_or_blocked_of_dot hhead hfront (pathNames_of_splitLast hsplit htail) ?_
            rcases hfirst with hfirst | ⟨failure, hfirst, hfailure⟩
            · exact (hok hfirst).imp_right Disk.IsBlocked.noRoom
            · exact Or.inr (htaken failure hfirst hfailure)
          · rintro failure ⟨⟩
        · obtain ⟨hok, htaken⟩ := entered_of_makeHere hcwd' hhere
          exact ⟨fun hresult => Or.inl (hok hresult), htaken⟩

/-- A path whose directories were made without a failure is entered, unless nothing can be made
behind it. -/
theorem entered_of_makeDirectories (hcwd : d.tree.kindAt d.cwd.base = some .directory)
    (hrun : (DiskM.makeDirectories existOk path).run d = (.ok (), d')) :
    d'.IsEntered path ∨ d'.IsBlocked path :=
  (entered_of_makeDirectoriesFrom hcwd (Nat.lt_succ_self _) hrun).1 rfl

theorem makeHere_of_nul (hnul : Disk.hasNul path = true)
    (hrun : (DiskM.makeHere existOk path).run d = (result, d')) : result = .error .nullByte := by
  unfold DiskM.makeHere at hrun
  rw [run_tryCatch, run_change, hnul, if_pos rfl] at hrun
  cases hrun
  rfl

/-- No directory is made for a path with NUL. -/
theorem makeDirectoriesFrom_of_nul {fuel : Nat} (hproper : d.tree.Proper)
    (hnul : Disk.hasNul path = true) (hfuel : path.length < fuel)
    (hrun : (DiskM.makeDirectoriesFrom existOk fuel path).run d = (result, d')) :
    ∃ failure, result = .error failure ∧ ¬failure.IsTaken ∧ failure ≠ .outOfRange .nesting := by
  have hnull : ¬Failure.nullByte.IsTaken := by
    rintro ⟨_, _, ⟨⟩⟩
  induction fuel generalizing path d d' result with
  | zero => exact absurd hfuel (Nat.not_lt_zero _)
  | succ fuel ih =>
      rcases hsplit : DiskM.splitLast path with ⟨head, tail⟩
      rcases DiskM.makeDirectoriesFrom_cases hsplit hrun with
        ⟨-, hhere⟩ | ⟨hhead, htail, -, first, made, habove, hthen⟩
      · exact ⟨_, makeHere_of_nul hnul hhere, hnull, by simp⟩
      rw [hasNul_splitLast hsplit htail, Bool.or_eq_true] at hnul
      cases hnulAbove : Disk.hasNul head with
      | true =>
          obtain ⟨failure, rfl, hother, hne⟩ := ih hproper hnulAbove
            (Nat.lt_of_lt_of_le (length_splitLast_lt hsplit htail) (Nat.lt_succ_iff.mp hfuel)) habove
          rcases hthen with ⟨_, ⟨⟩, -, rfl, -⟩ | ⟨⟨⟨⟩⟩ | ⟨_, ⟨⟩, htaken⟩, -⟩
          · exact ⟨failure, rfl, hother, hne⟩
          · exact absurd htaken hother
      | false =>
          rcases hthen with ⟨failure, rfl, hother, rfl, -⟩ | ⟨-, ⟨rfl, -, -⟩ | hhere⟩
          · have hends : EndsWith d.GrownFrom (fun _ => True) IsFault
                (DiskM.makeDirectoriesFrom existOk fuel head) :=
              endsWith_makeDirectoriesFrom existOk fuel hnulAbove
            refine ⟨failure, rfl, hother, ?_⟩
            rintro rfl
            exact not_isFault_nesting (hends.failure (.self hproper) habove)
          · rw [hnulAbove] at hnul
            exact absurd hnul (by decide)
          · refine ⟨_, makeHere_of_nul ?_ hhere, hnull, by simp⟩
            rw [hasNul_splitLast hsplit htail, Bool.or_eq_true]
            exact hnul

theorem hasNul_of_makeDirectories (hproper : d.tree.Proper)
    (hrun : (DiskM.makeDirectories existOk path).run d = (.ok (), d')) :
    Disk.hasNul path = false := by
  cases hnul : Disk.hasNul path with
  | false => rfl
  | true =>
      obtain ⟨failure, hfailed, -⟩ :=
        makeDirectoriesFrom_of_nul hproper hnul (Nat.lt_succ_self _) hrun
      cases hfailed

end BuildRunner
