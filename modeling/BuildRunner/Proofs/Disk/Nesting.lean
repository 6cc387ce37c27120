import BuildRunner.Proofs.Disk.Mirroring

/-!
# How deep a copy goes
-/

namespace BuildRunner

/-! ## Levels -/

namespace DiskM

variable {levels : Nat} {existOk : Bool} {source target : String} {d d' : Disk}

/-- A copy of entries that is nested too deep is so in one of them, those before it being copied. -/
theorem exists_entry_of_nesting {entries : Node.Entries} {faults : List CopyFault}
    (hrun : (copyEntries levels existOk source target faults entries).run d =
      (.error (.outOfRange .nesting), d')) :
    ∃ front entry rest found t, entries = front ++ entry :: rest ∧
      (copyEntries levels existOk source target faults front).run d = (.ok found, t) ∧
        (copyEntry levels existOk source target entry.1 entry.2).run t =
          (.error (.outOfRange .nesting), d') := by
  induction entries generalizing faults d with
  | nil => cases hrun
  | cons entry entries ih =>
      obtain ⟨name, node⟩ := entry
      rw [run_copyEntries_cons] at hrun
      have hhead := fun faults front =>
        run_copyEntries_cons levels existOk source target faults name node front d
      rcases hcopied : (copyEntry levels existOk source target name node).run d with
        ⟨failure | _, t⟩
      · simp only [hcopied] at hrun hhead
        split at hrun
        · next hsystem =>
            obtain ⟨front, entry, rest, found, u, rfl, hfront, hentry⟩ := ih hrun
            refine ⟨(name, node) :: front, entry, rest, found, u, rfl, ?_, hentry⟩
            rw [hhead, if_pos hsystem, hfront]
        · cases hrun
          exact ⟨[], (name, node), entries, faults, d, rfl, rfl, hcopied⟩
      · simp only [hcopied] at hrun hhead
        obtain ⟨front, entry, rest, found, u, rfl, hfront, hentry⟩ := ih hrun
        refine ⟨(name, node) :: front, entry, rest, found, u, rfl, ?_, hentry⟩
        rw [hhead, hfront]

/-- What two numbers of levels do alike, unless the levels are used up. -/
theorem run_copyEntries_of_ne_nesting {more : Nat} {entries : Node.Entries}
    {faults : List CopyFault} {result : Except Failure (List CopyFault)}
    (hentry : ∀ {name : String} {node : Node} {d d' : Disk} {result : Except Failure Unit},
      (copyEntry levels existOk source target name node).run d = (result, d') →
        result ≠ .error (.outOfRange .nesting) →
          (copyEntry more existOk source target name node).run d = (result, d'))
    (hrun : (copyEntries levels existOk source target faults entries).run d = (result, d'))
    (hresult : result ≠ .error (.outOfRange .nesting)) :
    (copyEntries more existOk source target faults entries).run d = (result, d') := by
  induction entries generalizing faults d with
  | nil => exact hrun
  | cons entry entries ih =>
      obtain ⟨name, node⟩ := entry
      rw [run_copyEntries_cons] at hrun ⊢
      rcases hcopied : (copyEntry levels existOk source target name node).run d with
        ⟨failure | _, t⟩
      · rw [hcopied] at hrun
        have hfailure : failure ≠ .outOfRange .nesting := by
          rintro rfl
          cases hrun
          exact hresult rfl
        rw [hentry hcopied (by simpa using hfailure)]
        dsimp only at hrun ⊢
        split at hrun
        · next hsystem =>
            rw [if_pos hsystem]
            exact ih hrun
        · next hsystem =>
            rw [if_neg hsystem]
            exact hrun
      · rw [hcopied] at hrun
        rw [hentry hcopied (by simp)]
        exact ih hrun

/-- Two actions that go on alike end alike. -/
theorem run_bind_of_imp {α β : Type} {action : DiskM α} {next other : α → DiskM β}
    {result : Except Failure β}
    (hnext : ∀ a t, action.run d = (.ok a, t) → (next a).run t = (result, d') →
      (other a).run t = (result, d'))
    (hrun : (action >>= next).run d = (result, d')) :
    (action >>= other).run d = (result, d') := by
  rw [run_bind] at hrun ⊢
  rcases haction : action.run d with ⟨failure | a, t⟩
  · rw [haction] at hrun
    exact hrun
  · rw [haction] at hrun
    exact hnext a t haction hrun

theorem run_copyInto_of_ne_nesting {more : Nat} {entries : Node.Entries}
    {result : Except Failure Unit}
    (hentry : ∀ {name : String} {node : Node} {d d' : Disk} {result : Except Failure Unit},
      (copyEntry levels existOk source target name node).run d = (result, d') →
        result ≠ .error (.outOfRange .nesting) →
          (copyEntry more existOk source target name node).run d = (result, d'))
    (hrun : (copyInto levels existOk source target entries).run d = (result, d'))
    (hresult : result ≠ .error (.outOfRange .nesting)) :
    (copyInto more existOk source target entries).run d = (result, d') := by
  unfold copyInto at hrun ⊢
  rw [run_bind] at hrun ⊢
  rcases hcopies : (copyEntries levels existOk source target [] entries).run d with
    ⟨failure | faults, t⟩
  · rw [hcopies] at hrun
    have hfailure : failure ≠ .outOfRange .nesting := by
      rintro rfl
      cases hrun
      exact hresult rfl
    rw [run_copyEntries_of_ne_nesting hentry hcopies (by simpa using hfailure)]
    exact hrun
  · rw [hcopies] at hrun
    rw [run_copyEntries_of_ne_nesting hentry hcopies (by simp)]
    exact hrun

/-- One level more makes no difference to a copy that does not use its levels up. -/
theorem run_copyTreeFrom_of_ne_nesting {result : Except Failure Unit}
    (hrun : (copyTreeFrom levels existOk source target).run d = (result, d'))
    (hresult : result ≠ .error (.outOfRange .nesting)) :
    (copyTreeFrom (levels + 1) existOk source target).run d = (result, d') := by
  induction levels generalizing source target d d' result with
  | zero =>
      rw [copyTreeFrom_zero] at hrun
      cases hrun
      exact absurd rfl hresult
  | succ levels ih =>
      have hentry : ∀ {name : String} {node : Node} {d d' : Disk} {result : Except Failure Unit},
          (copyEntry levels existOk source target name node).run d = (result, d') →
            result ≠ .error (.outOfRange .nesting) →
              (copyEntry (levels + 1) existOk source target name node).run d = (result, d') := by
        intro name node d d' result hrun hresult
        cases node with
        | dir es modified => exact ih hrun hresult
        | _ => exact hrun
      rw [copyTreeFrom_succ] at hrun ⊢
      refine run_bind_of_imp (fun found t _ hrun => ?_) hrun
      obtain ⟨place, node⟩ := found
      dsimp only at hrun ⊢
      split at hrun
      · next hfile =>
          rw [if_pos hfile]
          refine run_bind_of_imp (fun _ _ hthrown => ?_) hrun
          cases hthrown
      · next hdirectory =>
          rw [if_neg hdirectory]
          exact run_bind_of_imp (fun _ _ _ => fun hrun =>
            run_copyInto_of_ne_nesting hentry hrun hresult) hrun

/-- So the copy is the same with any larger number of levels. -/
theorem run_copyTreeFrom_of_le {more : Nat} {result : Except Failure Unit}
    (hrun : (copyTreeFrom levels existOk source target).run d = (result, d'))
    (hresult : result ≠ .error (.outOfRange .nesting)) (hle : levels ≤ more) :
    (copyTreeFrom more existOk source target).run d = (result, d') := by
  induction hle with
  | refl => exact hrun
  | step _ ih => exact run_copyTreeFrom_of_ne_nesting ih hresult

end DiskM

/-! ## Paths that are too long -/

section

variable {source target : String} {d d' : Disk} {levels : Nat} {existOk : Bool}

/-- A copy that is nested too deep is so among the entries of its source, once its target is there. -/
theorem copies_of_nesting (hproper : d.tree.Proper) (hsource : Disk.hasNul source = false)
    (hrun : (DiskM.copyTreeFrom (levels + 1) existOk source target).run d =
      (.error (.outOfRange .nesting), d')) :
    Disk.hasNul target = false ∧ ∃ place node t, d.status true source = .ok (place, node) ∧
      (DiskM.makeDirectories existOk target).run d = (.ok (), t) ∧
        (DiskM.copyEntries levels existOk source target [] node.entries).run t =
          (.error (.outOfRange .nesting), d') := by
  rw [DiskM.copyTreeFrom_succ, run_bind, run_ask, hsource, if_neg (by decide)] at hrun
  cases hstatus : d.status true source with
  | error code =>
      rw [hstatus] at hrun
      cases hrun
  | ok found =>
      obtain ⟨place, node⟩ := found
      rw [hstatus] at hrun
      dsimp only at hrun
      split at hrun
      · cases hrun
      rw [run_bind] at hrun
      have htarget : Disk.hasNul target = false := by
        by_contra hnul
        rcases hmade : (DiskM.makeDirectories existOk target).run d with ⟨result, t⟩
        obtain ⟨failure, rfl, -, hother⟩ := makeDirectoriesFrom_of_nul hproper
          (Bool.not_eq_false _ ▸ hnul) (Nat.lt_succ_self _) hmade
        rw [hmade] at hrun
        cases hrun
        exact hother rfl
      have hmakes : EndsWith d.GrownFrom (fun _ => True) IsFault
          (DiskM.makeDirectories existOk target) := endsWith_makeDirectories existOk htarget
      rcases hmade : (DiskM.makeDirectories existOk target).run d with ⟨failure | _, t⟩
      · rw [hmade] at hrun
        cases hrun
        exact absurd (hmakes.failure (.self hproper) hmade) not_isFault_nesting
      · rw [hmade] at hrun
        dsimp only at hrun
        unfold DiskM.copyInto at hrun
        rw [run_bind] at hrun
        have hgrown := hmakes.state (.self hproper) hmade
        rcases hcopies : (DiskM.copyEntries levels existOk source target [] node.entries).run t with
          ⟨failure | faults, u⟩
        · rw [hcopies] at hrun
          cases hrun
          exact ⟨htarget, place, node, t, rfl, rfl, hcopies⟩
        · have hentries : EndsWith d.GrownFrom (fun _ => True) IsCopyFailure
              (DiskM.copyEntries levels existOk source target [] node.entries) :=
            endsWith_copyEntries (endsWith_copyTreeFrom levels existOk) hsource htarget []
              (isAccepted_of_mem_entries hproper hstatus)
          have hfinish : EndsWith d.GrownFrom (fun _ => True) IsFault
              (DiskM.finishCopy source target faults) := endsWith_finishCopy hsource htarget faults
          rw [hcopies] at hrun
          exact absurd (hfinish.failure (hentries.state hgrown hcopies) hrun) not_isFault_nesting

/-- An entry whose copy is nested too deep is a directory. -/
theorem exists_directory_of_nesting {entries : Node.Entries} {faults : List CopyFault}
    (hproper : d.tree.Proper) (hsource : Disk.hasNul source = false)
    (htarget : Disk.hasNul target = false) (hentries : ∀ entry ∈ entries, IsAccepted entry.1)
    (hrun : (DiskM.copyEntries levels existOk source target faults entries).run d =
      (.error (.outOfRange .nesting), d')) :
    ∃ front entry rest found t, entries = front ++ entry :: rest ∧ t.tree.Proper ∧
      entry.2.kind = .directory ∧
        (DiskM.copyEntries levels existOk source target faults front).run d = (.ok found, t) ∧
          (DiskM.copyTreeFrom levels existOk (Path.join source entry.1)
            (Path.join target entry.1)).run t = (.error (.outOfRange .nesting), d') := by
  obtain ⟨front, ⟨name, node⟩, rest, found, t, rfl, hfront, hentry⟩ :=
    DiskM.exists_entry_of_nesting hrun
  have hbefore : EndsWith d.GrownFrom (fun _ => True) IsCopyFailure
      (DiskM.copyEntries levels existOk source target faults front) :=
    endsWith_copyEntries (endsWith_copyTreeFrom levels existOk) hsource htarget faults
      fun other hother => hentries other (List.mem_append_left _ hother)
  have hproper' := (hbefore.state (.self hproper) hfront).proper
  have hname := hentries (name, node) (List.mem_append_right _ List.mem_cons_self)
  have hdirectory : node.kind = .directory := by
    by_contra hkind
    have hends : EndsWith t.GrownFrom (fun _ => True) IsFault
        (DiskM.copyEntry levels existOk source target name node) :=
      endsWith_copyEntry_of_kind hsource htarget hname hkind
    exact not_isFault_nesting (hends.failure (.self hproper') hentry)
  refine ⟨front, (name, node), rest, found, t, rfl, hproper', hdirectory, hfront, ?_⟩
  cases node with
  | dir es modified => exact hentry
  | _ => cases hdirectory

/-- With every directory that a copy goes down, the path of its source gets longer; what is too long
leads nowhere. -/
theorem utf8ByteSize_of_nesting (hproper : d.tree.Proper) (hsource : Disk.hasNul source = false)
    (hrun : (DiskM.copyTreeFrom (levels + 1) existOk source target).run d =
      (.error (.outOfRange .nesting), d')) : source.utf8ByteSize + levels < pathLimit := by
  induction levels generalizing source target d d' with
  | zero =>
      obtain ⟨-, place, node, t, hstatus, -⟩ := copies_of_nesting hproper hsource hrun
      have hcheck := Disk.checkPath_of_status hstatus
      by_contra hlong
      rw [checkPath_of_long (Nat.not_lt.mp hlong)] at hcheck
      cases hcheck
  | succ levels ih =>
      obtain ⟨htarget, place, node, t, hstatus, hmade, hcopies⟩ :=
        copies_of_nesting hproper hsource hrun
      have hmakes : EndsWith d.GrownFrom (fun _ => True) IsFault
          (DiskM.makeDirectories existOk target) := endsWith_makeDirectories existOk htarget
      have hentries := isAccepted_of_mem_entries hproper hstatus
      obtain ⟨front, entry, rest, found, u, hsplit, hproper', -, -, hentry⟩ :=
        exists_directory_of_nesting (hmakes.state (.self hproper) hmade).proper hsource htarget
          hentries hcopies
      have hname := hentries entry (by
        rw [hsplit]
        exact List.mem_append_right _ List.mem_cons_self)
      have hshort := ih hproper' (hasNul_join hsource hname.hasNul) hentry
      have hlonger := utf8ByteSize_lt_join source hname.toIsName
      omega

/-- So a copy ends whatever it is copied into, also where nothing limits how deep calls may be
nested. -/
theorem copyTreeFrom_ne_nesting_of_le {result : Except Failure Unit} (hproper : d.tree.Proper)
    (hsource : Disk.hasNul source = false) (hlevels : pathLimit < levels)
    (hrun : (DiskM.copyTreeFrom levels existOk source target).run d = (result, d')) :
    result ≠ .error (.outOfRange .nesting) := by
  rintro rfl
  obtain ⟨levels, rfl⟩ : ∃ fewer, levels = fewer + 1 := ⟨levels - 1, by omega⟩
  have hshort := utf8ByteSize_of_nesting hproper hsource hrun
  omega

end

/-! ## Heights -/

theorem Node.length_lt_sizeOf {tree node : Node} {location : Location}
    (hnode : tree.get? location = some node) : location.length < sizeOf tree := by
  induction location generalizing tree with
  | nil => cases tree <;> simp
  | cons name rest ih =>
      cases tree with
      | dir es modified =>
          obtain ⟨child, hchild, hrest⟩ := Option.bind_eq_some_iff.mp hnode
          obtain ⟨front, back, hes, -⟩ := List.lookup_eq_some_iff.mp hchild
          have hmem : (name, child) ∈ es := by
            rw [show es = front ++ (name, child) :: back from hes]
            exact List.mem_append_right _ List.mem_cons_self
          have hsmall := List.sizeOf_lt_of_mem hmem
          have hlength := ih hrest
          simp only [Prod.mk.sizeOf_spec] at hsmall
          simp only [List.length_cons, Node.dir.sizeOf_spec]
          omega
      | _ => cases hnode

namespace Disk

/-- The directories below a location are nested no deeper. -/
def HeightAtMost (d : Disk) (origin : Location) (height : Nat) : Prop :=
  ∀ way, d.tree.kindAt (origin ++ way) = some .directory → way.length ≤ height

variable {d t d' : Disk} {origin copy : Location} {names : List String} {height : Nat}

theorem length_lt_of_kindAt {location : Location} {kind : Kind}
    (hkind : d.tree.kindAt location = some kind) : location.length < sizeOf d.tree := by
  obtain ⟨node, hnode, -⟩ := Option.map_eq_some_iff.mp hkind
  exact Node.length_lt_sizeOf hnode

theorem exists_heightAtMost (d : Disk) (origin : Location) :
    ∃ height, d.HeightAtMost origin height := by
  refine ⟨sizeOf d.tree, fun way hkind => ?_⟩
  have hlength := length_lt_of_kindAt hkind
  rw [List.length_append] at hlength
  omega

/-- A copy to a directory above the source: what it makes in the source is less deep than its
counterpart, so that the deepest is not new. -/
theorem Mirrors.height_of_above (hmirrors : d.Mirrors origin copy names d')
    (hcopy : copy <+: origin) (hheight : d.HeightAtMost origin height) :
    d'.HeightAtMost origin height := by
  have hdeep : ∀ fuel way, sizeOf d'.tree ≤ fuel + way.length →
      d'.tree.kindAt (origin ++ way) = some .directory → way.length ≤ height := by
    intro fuel
    induction fuel with
    | zero =>
        intro way hfuel hkind
        have hlength := length_lt_of_kindAt hkind
        rw [List.length_append] at hlength
        omega
    | succ fuel ih =>
        intro way hfuel hkind
        cases hbefore : d.tree.kindAt (origin ++ way) with
        | some kind =>
            have hkept := hmirrors.grows.tree _ _ hbefore
            rw [hkind] at hkept
            exact hheight way (hkept ▸ hbefore)
        | none =>
            obtain ⟨name, -, rest, hlocation, hne, hsame⟩ :=
              hmirrors.mirrored _ .directory trivial hbefore hkind
            obtain ⟨above, rfl⟩ := hcopy
            rw [List.append_assoc, List.append_cancel_left_eq] at hlocation
            have hlonger : above.length ≠ 0 := fun hnil =>
              hne (by rw [List.length_eq_zero_iff.mp hnil, List.append_nil])
            have hlength := congrArg List.length hlocation
            rw [List.length_append] at hlength
            have hdeeper := ih (name :: rest) (by omega) hsame
            omega
  exact fun way hkind => hdeep (sizeOf d'.tree) way (Nat.le_add_right _ _) hkind

/-- Below an entry that the copy is not in, the directories are nested no deeper than before. -/
theorem Mirrors.height_below {name : String} {rest : Location}
    (hmirrors : d.Mirrors origin copy names d') (houtside : ¬origin ++ [name] <+: copy)
    (hheight : d.HeightAtMost origin height)
    (hkind : d'.tree.kindAt (origin ++ name :: rest) = some .directory) :
    (name :: rest).length ≤ height := by
  by_cases hcopy : copy <+: origin
  · exact hmirrors.height_of_above hcopy hheight _ hkind
  · cases hbefore : d.tree.kindAt (origin ++ name :: rest) with
    | some kind =>
        have hkept := hmirrors.grows.tree _ _ hbefore
        rw [hkind] at hkept
        exact hheight _ (hkept ▸ hbefore)
    | none =>
        obtain ⟨other, -, below, hlocation, -⟩ :=
          hmirrors.mirrored _ .directory trivial hbefore hkind
        have hfirst : origin ++ [name] <+: origin ++ name :: rest :=
          ⟨rest, by rw [List.append_assoc, List.singleton_append]⟩
        have hsecond : copy <+: origin ++ name :: rest := ⟨other :: below, hlocation.symm⟩
        rcases List.prefix_or_prefix_of_prefix hfirst hsecond with hinside | hinside
        · exact absurd hinside houtside
        · rcases List.prefix_concat_iff.mp hinside with rfl | habove
          · exact absurd (List.prefix_refl _) houtside
          · exact absurd habove hcopy

/-- A copy to an entry of the source that is not copied itself. -/
theorem Mirrors.height_inside {name : String}
    (hmirrors : d.Mirrors origin (origin ++ [name]) names d') (hname : name ∉ names)
    (hheight : d.HeightAtMost origin height) : d'.HeightAtMost (origin ++ [name]) height := by
  intro way hkind
  cases hbefore : d.tree.kindAt (origin ++ [name] ++ way) with
  | some kind =>
      have hkept := hmirrors.grows.tree _ _ hbefore
      rw [hkind] at hkept
      have hthere := hheight (name :: way) (by
        rw [← List.singleton_append, ← List.append_assoc, hbefore, hkept])
      exact Nat.le_of_succ_le hthere
  | none =>
      obtain ⟨other, hmem, rest, hlocation, -, hsame⟩ :=
        hmirrors.mirrored _ .directory trivial hbefore hkind
      rw [List.append_cancel_left hlocation]
      refine hmirrors.height_below (fun hinside => ?_) hheight hsame
      have hother := List.append_cancel_left (hinside.eq_of_length (by simp))
      exact hname (List.singleton_inj.mp hother ▸ hmem)

theorem Mirrors.kept_inside {name : String} {rest : Location}
    (hmirrors : d.Mirrors origin copy names d') (hname : name ∉ names)
    (hkind : d'.tree.kindAt (copy ++ name :: rest) = some .directory) :
    d.tree.kindAt (copy ++ name :: rest) = some .directory := by
  cases hbefore : d.tree.kindAt (copy ++ name :: rest) with
  | some kind =>
      rw [← hkind, hmirrors.grows.tree _ _ hbefore]
  | none =>
      obtain ⟨other, hmem, below, hlocation, -⟩ :=
        hmirrors.mirrored _ .directory trivial hbefore hkind
      obtain ⟨rfl, -⟩ := List.cons.inj (List.append_cancel_left hlocation)
      exact absurd hmem hname

end Disk

theorem Disk.MakesWay.kept {d d' : Disk} {base location : Location} (hway : d.MakesWay base d')
    (hkind : d'.tree.kindAt location = some .directory) :
    location <+: base ∨ d.tree.kindAt location = some .directory := by
  by_cases habove : location <+: base
  · exact Or.inl habove
  · right
    rw [← hkind, Node.kindAt, Node.kindAt, hway.apart habove]

/-! ## Copies that end -/

/-- The copy is in none of the directories to be copied, or it is one of them: then directories of
its name do not stand one in the other so many times. -/
def Disk.TurnsAtMost (origin copy : Location) (turns : Nat) (entries : Node.Entries) (d : Disk) :
    Prop :=
  ∀ entry ∈ entries, entry.2.kind = .directory → origin ++ [entry.1] <+: copy →
    copy = origin ++ [entry.1] ∧
      d.tree.kindAt (origin ++ List.replicate (turns + 1) entry.1) ≠ some .directory

section

variable {source target : String} {origin copy : Location} {d t d' : Disk}
  {levels height turns : Nat} {existOk : Bool}

/-- The copy of an entry that the copy is not in goes down no deeper than the source. -/
theorem copyTreeFrom_ne_nesting_of_outside {name : String} {names : List String}
    {result : Except Failure Unit} (hpairs : t.Pairs source origin target copy)
    (haccepted : IsAccepted name) (hfound : t.tree.kindAt (origin ++ [name]) = some .directory)
    (hmirrors : d.Mirrors origin copy names t) (hheight : d.HeightAtMost origin height)
    (houtside : ¬origin ++ [name] <+: copy) (hlevels : height ≤ levels)
    (hrun : (DiskM.copyTreeFrom levels existOk (Path.join source name)
      (Path.join target name)).run t = (result, d')) : result ≠ .error (.outOfRange .nesting) := by
  rintro rfl
  have hall : d.Mirrors origin copy (name :: names) d' :=
    (isFrame_mirrors _ _ _).trans (hmirrors.mono (List.subset_cons_self _ _))
      ((mirrors_of_copyTreeFrom hpairs haccepted hfound hrun).mono (by simp))
  obtain ⟨way, hlength, hnested⟩ :=
    nested_of_copyTreeFrom (hasNul_join hpairs.source_nul haccepted.hasNul)
      (hasNul_join hpairs.target_nul haccepted.hasNul) hpairs.proper
      (hpairs.source_enters.join haccepted hfound) hfound hrun
  rw [List.append_assoc, List.singleton_append] at hnested
  have hdeep := hall.height_below houtside hheight hnested
  rw [List.length_cons] at hdeep
  omega

/-- Once the directory of an entry is made where the copy is: what is to be copied from there. -/
theorem turnsAtMost_below {u : Disk} {name : String} {names : List String} {entries : Node.Entries}
    (hmirrors : d.Mirrors origin (origin ++ [name]) names t) (hname : name ∉ names)
    (hway : t.MakesWay (origin ++ [name] ++ [name]) u)
    (hlisted : ∀ entry ∈ entries, t.Listed (origin ++ [name]) entry)
    (hturns : d.tree.kindAt (origin ++ List.replicate (turns + 2) name) ≠ some .directory) :
    u.TurnsAtMost (origin ++ [name]) (origin ++ [name] ++ [name]) turns entries := by
  intro entry hentry hdirectory hinside
  have hsame := List.append_cancel_left (hinside.eq_of_length (by simp))
  obtain ⟨-, hfound⟩ := hlisted entry hentry
  rw [hdirectory] at hfound
  rw [hsame] at hfound ⊢
  rw [List.singleton_inj.mp hsame]
  refine ⟨rfl, fun hdeep => ?_⟩
  have hnot : t.tree.kindAt (origin ++ [name] ++ List.replicate (turns + 1) name) ≠
      some .directory := by
    intro hthere
    rw [List.replicate_succ] at hthere
    have hbefore := hmirrors.kept_inside hname hthere
    rw [← List.replicate_succ, List.append_assoc, List.singleton_append,
      ← List.replicate_succ] at hbefore
    exact hturns hbefore
  rcases hway.kept hdeep with hmade | hthere
  · -- only the one that is listed is made, and that was there
    have hlength := hmade.length_le
    simp only [List.length_append, List.length_replicate, List.length_singleton] at hlength
    obtain rfl : turns = 0 := by omega
    exact hnot hfound
  · exact hnot hthere

/-- Only the copy of a directory that the copy is in can be nested too deep. -/
theorem exists_inside_of_nesting {entries : Node.Entries} {faults : List CopyFault}
    (hpairs : d.Pairs source origin target copy)
    (hlisted : ∀ entry ∈ entries, d.Listed origin entry)
    (hdistinct : (entries.map Prod.fst).Nodup) (hheight : d.HeightAtMost origin height)
    (hlevels : height ≤ levels)
    (hrun : (DiskM.copyEntries levels existOk source target faults entries).run d =
      (.error (.outOfRange .nesting), d')) :
    ∃ entry ∈ entries, entry.2.kind = .directory ∧ origin ++ [entry.1] <+: copy ∧
      ∃ names t, entry.1 ∉ names ∧ d.Mirrors origin copy names t ∧
        (DiskM.copyTreeFrom levels existOk (Path.join source entry.1)
          (Path.join target entry.1)).run t = (.error (.outOfRange .nesting), d') := by
  obtain ⟨front, entry, rest, found, t, rfl, -, hdirectory, hfront, hentry⟩ :=
    exists_directory_of_nesting hpairs.proper hpairs.source_nul hpairs.target_nul
      (fun entry hentry => (hlisted entry hentry).accepted) hrun
  have hmem : entry ∈ front ++ entry :: rest := List.mem_append_right _ List.mem_cons_self
  have hmirrors := mirrors_of_copyEntries mirrors_of_copyTreeFrom hpairs
    (fun other hother => hlisted other (List.mem_append_left _ hother)) hfront
  obtain ⟨haccepted, hfound⟩ := (hlisted entry hmem).of_grows hmirrors.grows
  rw [hdirectory] at hfound
  have hnew : entry.1 ∉ front.map Prod.fst := by
    rw [List.map_append, List.map_cons] at hdistinct
    exact fun hold => (List.nodup_append.mp hdistinct).2.2 _ hold _ List.mem_cons_self rfl
  refine ⟨entry, hmem, hdirectory, ?_, front.map Prod.fst, t, hnew, hmirrors, hentry⟩
  by_contra houtside
  exact copyTreeFrom_ne_nesting_of_outside (hpairs.of_mirrors hmirrors) haccepted hfound hmirrors
    hheight houtside hlevels hentry rfl

/-- The entries of a directory are copied without going down too deep, if there are levels enough
for the height of the source and for the turns that the copy takes in itself. -/
theorem copyEntries_ne_nesting {entries : Node.Entries} {faults : List CopyFault}
    {result : Except Failure (List CopyFault)} (hpairs : d.Pairs source origin target copy)
    (hlisted : ∀ entry ∈ entries, d.Listed origin entry)
    (hdistinct : (entries.map Prod.fst).Nodup) (hheight : d.HeightAtMost origin height)
    (hturns : d.TurnsAtMost origin copy turns entries) (hlevels : height + turns ≤ levels)
    (hrun : (DiskM.copyEntries levels existOk source target faults entries).run d =
      (result, d')) : result ≠ .error (.outOfRange .nesting) := by
  rintro rfl
  induction turns generalizing source target origin copy d d' levels entries faults with
  | zero =>
      obtain ⟨entry, hentry, hdirectory, hinside, -⟩ := exists_inside_of_nesting hpairs hlisted
        hdistinct hheight (Nat.le_of_add_right_le hlevels) hrun
      have hfound := (hlisted entry hentry).found
      rw [hdirectory] at hfound
      exact (hturns entry hentry hdirectory hinside).2 hfound
  | succ turns ih =>
      obtain ⟨⟨name, node⟩, hentry, hdirectory, hinside, names, t, hnew, hmirrors, hrun⟩ :=
        exists_inside_of_nesting hpairs hlisted hdistinct hheight
          (Nat.le_of_add_right_le hlevels) hrun
      obtain ⟨rfl, hdeep⟩ := hturns _ hentry hdirectory hinside
      obtain ⟨haccepted, hfound⟩ := hlisted _ hentry
      dsimp only at *
      rw [hdirectory] at hfound
      have hpairs' := hpairs.of_mirrors hmirrors
      have hfound' := hmirrors.grows.tree _ _ hfound
      have hheight' := hmirrors.height_inside hnew hheight
      have hsource := hasNul_join hpairs.source_nul haccepted.hasNul
      have htarget := hasNul_join hpairs.target_nul haccepted.hasNul
      have henters := hpairs'.source_enters.join haccepted hfound'
      rcases hpairs'.aims_or_noRoom haccepted hfound' with haims | ⟨hroom, hfree⟩
      · obtain ⟨levels, rfl⟩ : ∃ fewer, levels = fewer + 1 := ⟨levels - 1, by omega⟩
        obtain ⟨-, place, found, u, hstatus, hmade, hcopies⟩ :=
          copies_of_nesting hpairs'.proper hsource hrun
        obtain ⟨rfl, -⟩ := henters.place_eq hstatus
        have hnode := Disk.get?_of_status hpairs'.current hstatus rfl
        obtain ⟨hway, hmirrors', hbelow⟩ := hpairs'.below haccepted hfound' haims hmade
        have hentries := Disk.listed_of_get? hpairs'.proper hnode
        refine ih (hbelow rfl) (fun entry hentry => (hentries entry hentry).of_grows hmirrors'.grows)
          (hpairs'.proper.distinct _ _ hnode) (fun way hkind => ?_)
          (turnsAtMost_below hmirrors hnew hway hentries hdeep) (by omega) hcopies
        rcases hway.kept hkind with hmade | hthere
        · have hlength := hmade.length_le
          have hheight := hheight [name] hfound
          simp only [List.length_append, List.length_singleton] at hlength hheight
          omega
        · exact hheight' way hthere
      · obtain ⟨rfl, -⟩ := copyTreeFrom_of_noRoom hpairs'.proper hsource htarget hroom hfree hrun
        obtain ⟨way, hlength, hnested⟩ :=
          nested_of_copyTreeFrom hsource htarget hpairs'.proper henters hfound' hrun
        have hdeep := hheight' way hnested
        omega

/-- Nothing is nested deeper by a copy into a place that is sealed. -/
theorem copyEntries_ne_nesting_of_sealed {entries : Node.Entries} {faults : List CopyFault}
    {result : Except Failure (List CopyFault)} (hproper : d.tree.Proper)
    (hsource : Disk.hasNul source = false) (htarget : Disk.hasNul target = false)
    (henters : d.Enters source origin) (hlisted : ∀ entry ∈ entries, d.Listed origin entry)
    (hheight : d.HeightAtMost origin height) (hsealed : d.Sealed target) (hlevels : height ≤ levels)
    (hrun : (DiskM.copyEntries levels existOk source target faults entries).run d =
      (result, d')) : result ≠ .error (.outOfRange .nesting) := by
  rintro rfl
  have haccepted := fun entry hentry => (hlisted entry hentry).accepted
  obtain rfl := copyEntries_of_sealed
    (fun hs ht hroom hfree hrun => (copyTreeFrom_of_noRoom hproper hs ht hroom hfree hrun).1)
    hsource htarget haccepted hsealed hrun
  obtain ⟨way, hlength, hnested⟩ := nested_of_copyEntries nested_of_copyTreeFrom hsource htarget
    hproper henters haccepted
    (fun entry hentry hkind => hkind ▸ (hlisted entry hentry).found) hrun
  have hdeep := hheight way hnested
  omega

/-- Once the missing directories of the target are made, its place is in no directory that is to be
copied, unless it is one of them itself, and no link there stands for a directory of the source. -/
structure Disk.StandsClear (source target : String) (d t : Disk) : Prop where
  outside : ∀ origin copy name, d.Enters source origin → t.Enters target copy →
    d.tree.kindAt (origin ++ [name]) = some .directory → origin ++ [name] <+: copy →
      copy = origin ++ [name]
  clear : ∀ origin copy, d.Enters source origin → t.Enters target copy → t.Clear origin copy

/-- The copy ends unless its place is inside of what is copied: levels for the source and for a copy
of it in itself are enough. -/
theorem copyTreeFrom_ne_nesting {result : Except Failure Unit} (hproper : d.tree.Proper)
    (hcwd : d.tree.kindAt d.cwd.base = some .directory) (hsource : d.isDirectory source = true)
    (hclear : d.StandsClear source target (stateAfter (DiskM.makeDirectories existOk target) d))
    (hheight : ∀ origin, d.Enters source origin →
      (stateAfter (DiskM.makeDirectories existOk target) d).HeightAtMost origin height)
    (hlevels : 2 * height < levels)
    (hrun : (DiskM.copyTreeFrom levels existOk source target).run d = (result, d')) :
    result ≠ .error (.outOfRange .nesting) := by
  rintro rfl
  obtain ⟨levels, rfl⟩ : ∃ fewer, levels = fewer + 1 := ⟨levels - 1, by omega⟩
  have hnul := Disk.hasNul_of_isDirectory hsource
  obtain ⟨htarget, place, node, t, hstatus, hmade, hcopies⟩ := copies_of_nesting hproper hnul hrun
  rw [stateAfter_of_run hmade] at hclear hheight
  have hmakes : EndsWith d.GrownFrom (fun _ => True) IsFault
      (DiskM.makeDirectories existOk target) := endsWith_makeDirectories existOk htarget
  have hgrown := hmakes.state (.self hproper) hmade
  have hcwd' : t.tree.kindAt t.cwd.base = some .directory := by
    rw [hgrown.grows.current]
    exact hgrown.grows.tree _ _ hcwd
  obtain ⟨⟨origin, lost⟩, hlocate⟩ := Disk.exists_place_of_isDirectory hsource
  cases lost with
  | cons name lost =>
      rw [Disk.entries_eq_nil_of_lost hlocate hstatus] at hcopies
      cases hcopies
  | nil =>
      have henters := Disk.enters_of_locate hlocate
      obtain ⟨rfl, -⟩ := henters.place_eq hstatus
      have hnode := Disk.get?_of_status hcwd hstatus rfl
      have hentries := Disk.listed_of_get? hproper hnode
      have hlisted : ∀ entry ∈ node.entries, t.Listed origin entry := fun entry hentry =>
        (hentries entry hentry).of_grows hgrown.grows
      have henters' := henters.of_keeps hgrown.grows.tree.keepsWays hgrown.grows.current
      have hsealed : t.Sealed target → False := fun hsealed =>
        copyEntries_ne_nesting_of_sealed hgrown.proper hnul htarget henters' hlisted
          (hheight origin henters) hsealed (by omega) hcopies rfl
      rcases entered_of_makeDirectories hcwd hmade with ⟨hne, ⟨⟨copy, lost⟩, left⟩, henter⟩ | hblocked
      · cases lost with
        | cons name lost => exact hsealed (Disk.sealed_of_lost hne henter (List.cons_ne_nil name lost))
        | nil =>
            have hto : t.Enters target copy := ⟨hne, left, henter⟩
            have hpairs : t.Pairs source origin target copy :=
              { proper := hgrown.proper
                current := hcwd'
                source_nul := hnul
                target_nul := htarget
                source_enters := henters'
                target_enters := hto
                source_directory := hgrown.grows.tree _ _ (Disk.kindAt_of_locate hcwd hlocate)
                target_directory := kindAt_of_enter (kindAt_startPlace _ hcwd') henter
                clear := hclear.clear origin copy henters hto }
            have hturns : t.TurnsAtMost origin copy height node.entries := by
              refine fun entry hentry hdirectory hinside => ⟨?_, fun hdeep => ?_⟩
              · have hfound := (hentries entry hentry).found
                rw [hdirectory] at hfound
                exact hclear.outside origin copy entry.1 henters hto hfound hinside
              · have hlength := hheight origin henters _ hdeep
                rw [List.length_replicate] at hlength
                omega
            exact copyEntries_ne_nesting hpairs hlisted (hproper.distinct _ _ hnode)
              (hheight origin henters) hturns (by omega) hcopies rfl
      · exact hsealed (hblocked.noRoom.sealed hblocked.shut)

end

end BuildRunner
