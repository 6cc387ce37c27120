import BuildRunner.Proofs.Disk.Opening
import BuildRunner.Proofs.Machine.Frames

/-!
# Starting a program

A start either makes one handle, which is open and owns exactly the files that were opened for it,
or it makes none and has released what it had opened.  The files that it opens are new, so that none
of them belongs to anything else.
-/

namespace BuildRunner

variable {κ : Type}

/-- A program that is started has not changed anything yet: it starts in the current directory, and
no file is closed on its behalf. -/
structure LoadsQuietly (κ : Type) [Program κ] : Prop where
  quiet : ∀ {d d' : Disk} {environment : Environment} {arguments : List String}
    {out err : Option Nat} {program : κ},
    Program.load d environment arguments out err = .ok (d', program) →
      d'.tree = d.tree ∧ d'.cwd = d.cwd ∧ d.files.length ≤ d'.files.length

/-- Starting a program opens files on the disk. -/
abbrev Spawns : Machine κ → Machine κ → Prop := OnlyDisk Disk.Opens

theorem isFrame_spawns : IsFrame (Spawns : Machine κ → Machine κ → Prop) :=
  isFrame_onlyDisk isFrame_opens

theorem Spawns.of_quiet {m m' : Machine κ} (hquiet : Quiet m m') : Spawns m m' :=
  OnlyDisk.of_quiet isFrame_opens hquiet

/-! ## The books on handles and files -/

/-- The books are as before; no handle was asked to close. -/
structure SameBooks (m m' : Machine κ) : Prop where
  accounts : m'.accounts = m.accounts
  held : m'.held = m.held
  closings : m'.closings = m.closings
  files : m.disk.files.length ≤ m'.disk.files.length

theorem isFrame_sameBooks : IsFrame (SameBooks : Machine κ → Machine κ → Prop) where
  refl _ := ⟨rfl, rfl, rfl, Nat.le_refl _⟩
  trans h h' := ⟨h'.accounts.trans h.accounts, h'.held.trans h.held,
    h'.closings.trans h.closings, h.files.trans h'.files⟩

theorem SameBooks.of_filing {D : Disk → Disk → Prop} {m m' : Machine κ}
    (hfiling : Filing D m m') (hfiles : m.disk.files.length ≤ m'.disk.files.length) :
    SameBooks m m' := ⟨hfiling.accounts, hfiling.held, hfiling.closings, hfiles⟩

theorem SameBooks.of_quiet {m m' : Machine κ} (hquiet : Quiet m m') : SameBooks m m' :=
  .of_filing hquiet (hquiet.disk ▸ Nat.le_refl _)

/-- Open files that are new and all different. -/
structure NewFiles (m m' : Machine κ) (opened : List Nat) : Prop where
  nodup : opened.Nodup
  new : ∀ i ∈ opened, m.disk.files.length ≤ i ∧ i < m'.disk.files.length

/-- Files have been opened and are held. -/
structure Opening (m m' : Machine κ) (opened : List Nat) : Prop where
  accounts : m'.accounts = m.accounts
  closings : m'.closings = m.closings
  files : m.disk.files.length ≤ m'.disk.files.length
  held : m'.held = m.held ++ opened
  opened : NewFiles m m' opened

theorem Opening.of_sameBooks {m m' : Machine κ} (hbooks : SameBooks m m') : Opening m m' [] :=
  ⟨hbooks.accounts, hbooks.closings, hbooks.files, by simp [hbooks.held], by simp, by simp⟩

theorem Opening.trans {m m' m'' : Machine κ} {first second : List Nat} (h : Opening m m' first)
    (h' : Opening m' m'' second) : Opening m m'' (first ++ second) := by
  have hfiles := h.files
  have hfiles' := h'.files
  refine ⟨h'.accounts.trans h.accounts, h'.closings.trans h.closings, hfiles.trans hfiles',
    by rw [h'.held, h.held, List.append_assoc], ?_, ?_⟩
  · rw [List.nodup_append]
    refine ⟨h.opened.nodup, h'.opened.nodup, ?_⟩
    rintro i hi j hj rfl
    have hlt := (h.opened.new i hi).2
    have hle := (h'.opened.new i hj).1
    omega
  · intro i hi
    rcases List.mem_append.mp hi with hi | hi
    · have hnew := h.opened.new i hi
      omega
    · have hnew := h'.opened.new i hi
      omega

/-- A program has been started: there is one more handle, which is open and owns new files. -/
structure Started (m m' : Machine κ) (id : Nat) : Prop where
  id : id = m.accounts.length
  closings : m'.closings = m.closings
  files : m.disk.files.length ≤ m'.disk.files.length
  handle : ∃ owned, m'.accounts = m.accounts ++ [(owned, false)] ∧ m'.held = m.held ++ owned ∧
    NewFiles m m' owned

theorem Started.of_sameBooks_left {m m' m'' : Machine κ} {id : Nat} (hbooks : SameBooks m m')
    (hstarted : Started m' m'' id) : Started m m'' id := by
  obtain ⟨owned, haccounts, hheld, hfiles⟩ := hstarted.handle
  refine ⟨by rw [hstarted.id, hbooks.accounts], hstarted.closings.trans hbooks.closings,
    hbooks.files.trans hstarted.files, owned, by rw [haccounts, hbooks.accounts],
    by rw [hheld, hbooks.held], hfiles.nodup, ?_⟩
  intro i hi
  exact ⟨hbooks.files.trans (hfiles.new i hi).1, (hfiles.new i hi).2⟩

theorem Started.of_sameBooks_right {m m' m'' : Machine κ} {id : Nat}
    (hstarted : Started m m' id) (hbooks : SameBooks m' m'') : Started m m'' id := by
  obtain ⟨owned, haccounts, hheld, hfiles⟩ := hstarted.handle
  refine ⟨hstarted.id, hbooks.closings.trans hstarted.closings,
    hstarted.files.trans hbooks.files, owned, by rw [hbooks.accounts, haccounts],
    by rw [hbooks.held, hheld], hfiles.nodup, ?_⟩
  intro i hi
  exact ⟨(hfiles.new i hi).1, Nat.lt_of_lt_of_le (hfiles.new i hi).2 hbooks.files⟩

/-- The failures that keep a program from starting. -/
def Failure.PreventsStart (failure : Failure) : Prop :=
  (failure.isSystem || failure = .nullByte) = true

/-- An output of a program has been opened, or a failure keeps the program from starting. -/
inductive Opened (m : Machine κ) : Except Failure (Option Nat) × Machine κ → Prop
  | opened {file : Option Nat} {m' : Machine κ} {files : List Nat} (hspawns : Spawns m m')
      (hopening : Opening m m' files) : Opened m (.ok file, m')
  | prevented {failure : Failure} (hprevents : failure.PreventsStart) : Opened m (.error failure, m)

/-- A handle has been made, or what was opened for it is still held. -/
inductive Launched (m : Machine κ) : Except Failure Nat × Machine κ → Prop
  | launched {id : Nat} {m' : Machine κ} (hspawns : Spawns m m') (hstarted : Started m m' id) :
      Launched m (.ok id, m')
  | prevented {failure : Failure} {m' : Machine κ} {files : List Nat} (hspawns : Spawns m m')
      (hopening : Opening m m' files) (hprevents : failure.PreventsStart) :
      Launched m (.error failure, m')

/-- A handle has been made, or the books are as before. -/
inductive Tried (m : Machine κ) : Except Failure (Option Nat) × Machine κ → Prop
  | started {id : Nat} {m' : Machine κ} (hspawns : Spawns m m') (hstarted : Started m m' id) :
      Tried m (.ok (some id), m')
  | refused {m' : Machine κ} (hspawns : Spawns m m') (hbooks : SameBooks m m') :
      Tried m (.ok none, m')
  | failed {failure : Failure} {m' : Machine κ} (hspawns : Spawns m m')
      (hbooks : SameBooks m m') : Tried m (.error failure, m')

theorem Tried.of_quiet {m m' : Machine κ} {outcome : Except Failure (Option Nat) × Machine κ}
    (hquiet : Quiet m m') (htried : Tried m' outcome) : Tried m outcome := by
  cases htried with
  | started hspawns hstarted =>
      exact .started (isFrame_spawns.trans (.of_quiet hquiet) hspawns)
        (hstarted.of_sameBooks_left (.of_quiet hquiet))
  | refused hspawns hbooks =>
      exact .refused (isFrame_spawns.trans (.of_quiet hquiet) hspawns)
        (isFrame_sameBooks.trans (.of_quiet hquiet) hbooks)
  | failed hspawns hbooks =>
      exact .failed (isFrame_spawns.trans (.of_quiet hquiet) hspawns)
        (isFrame_sameBooks.trans (.of_quiet hquiet) hbooks)

theorem tried_bind {α : Type} {action : Act κ α} {next : α → Act κ (Option Nat)}
    (haction : Respects Quiet action) (hnext : ∀ a m, Tried m ((next a).run m)) (m : Machine κ) :
    Tried m ((action >>= next).run m) := by
  have hquiet := haction m
  rw [stateAfter] at hquiet
  rw [run_bind]
  generalize action.run m = outcome at hquiet
  obtain ⟨failure | a, m'⟩ := outcome
  · exact .failed (.of_quiet hquiet) (.of_quiet hquiet)
  · exact .of_quiet hquiet (hnext a m')

namespace Act

/-! ## Opening the outputs -/

theorem opened_pure (file : Option Nat) (m : Machine κ) :
    Opened m ((pure file : Act κ (Option Nat)).run m) :=
  .opened (isFrame_spawns.refl m) (.of_sameBooks (isFrame_sameBooks.refl m))

/-- A path is opened as one more file. -/
theorem openOutput_path (path : String) (m : Machine κ) :
    (∃ failure, failure.PreventsStart ∧
        (openOutput (.path path)).run m = (.error failure, m)) ∨
      ∃ disk, m.disk.openFile false path = .ok (disk, m.disk.files.length) ∧
        (openOutput (.path path)).run m =
          (.ok (some m.disk.files.length),
            { m with disk, held := m.held ++ [m.disk.files.length] }) := by
  dsimp only [openOutput]
  cases Disk.hasNul path with
  | true => exact Or.inl ⟨.nullByte, rfl, rfl⟩
  | false =>
      rw [if_neg (by decide), run_bind, run_get]
      dsimp only
      cases hopen : m.disk.openFile false path with
      | error code => exact Or.inl ⟨.system code (some path) none, rfl, rfl⟩
      | ok found =>
          obtain ⟨disk, index⟩ := found
          obtain ⟨rfl, -⟩ := Disk.openFile_inv hopen
          exact Or.inr ⟨disk, rfl, rfl⟩

theorem opened_openOutput (sink : Sink) (m : Machine κ) : Opened m ((openOutput sink).run m) := by
  cases sink with
  | inherit => exact opened_pure none m
  | file index => exact opened_pure (some index) m
  | path path =>
      rcases openOutput_path path m with ⟨failure, hprevents, hrun⟩ | ⟨disk, hopen, hrun⟩
      · rw [hrun]
        exact .prevented hprevents
      · obtain ⟨-, hlength, hopens⟩ := Disk.openFile_inv hopen
        rw [hrun]
        have hnew : ∀ i ∈ [m.disk.files.length],
            m.disk.files.length ≤ i ∧ i < disk.files.length := by
          intro i hi
          rw [List.mem_singleton] at hi
          subst i
          exact ⟨Nat.le_refl _, hlength ▸ Nat.lt_succ_self _⟩
        exact .opened ⟨hopens, rfl, rfl⟩ ⟨rfl, rfl, hopens.files, rfl, by simp, hnew⟩

/-! ## Launching a program -/

variable [Program κ]

theorem launch_cases (hload : LoadsQuietly κ) (program : String) (argv : List String)
    (out err : Option Nat) (owned : List Nat) (m : Machine κ) :
    (∃ failure : Failure, failure.PreventsStart ∧
        (launch program argv out err owned : Act κ Nat).run m = (.error failure, m)) ∨
      ∃ m', (launch program argv out err owned : Act κ Nat).run m = (.ok m.accounts.length, m') ∧
        m'.disk.tree = m.disk.tree ∧ Spawns m m' ∧ m'.held = m.held ∧ m'.closings = m.closings ∧
          m'.accounts = m.accounts ++ [(owned, false)] := by
  have hlength : m.handles.length = m.accounts.length := (List.length_map _).symm
  unfold launch
  split
  · exact Or.inl ⟨.nullByte, rfl, rfl⟩
  · rw [run_bind, run_get]
    dsimp only
    cases hloaded : (Program.load m.disk m.environment (program :: argv) out err :
        Except Errno (Disk × κ)) with
    | error code => exact Or.inl ⟨.system code (some program) none, rfl, rfl⟩
    | ok found =>
        obtain ⟨disk, loaded⟩ := found
        obtain ⟨htree, hcwd, hfiles⟩ := hload.quiet hloaded
        rw [hlength]
        dsimp only
        rw [run_bind, run_set]
        refine Or.inr ⟨_, rfl, htree, ⟨⟨?_, hcwd, hfiles⟩, rfl, rfl⟩, rfl, rfl, ?_⟩
        · exact htree ▸ Node.GainsFiles.refl _
        · simp [Machine.accounts, Handle.account]

theorem launched_of_opening {m m₁ : Machine κ} (hload : LoadsQuietly κ) (program : String)
    (argv : List String) (outFile : Option Nat) {action : Act κ (Option Nat)} {files : List Nat}
    (hspawns : Spawns m m₁) (hopening : Opening m m₁ files)
    (haction : Opened m₁ (action.run m₁)) :
    Launched m ((do
      let errFile ← action
      let now ← get
      launch program argv outFile errFile (now.held.drop m.held.length) : Act κ Nat).run m₁) := by
  rw [run_bind]
  generalize action.run m₁ = outcome at haction
  cases haction with
  | prevented hprevents => exact .prevented hspawns hopening hprevents
  | @opened errFile m₂ more hspawnsErr hmore =>
      have hspawns₂ : Spawns m m₂ := isFrame_spawns.trans hspawns hspawnsErr
      have hopening₂ : Opening m m₂ (files ++ more) := hopening.trans hmore
      dsimp only
      rw [run_bind, run_get]
      dsimp only
      have howned : m₂.held.drop m.held.length = files ++ more := by
        rw [hopening₂.held, List.drop_left]
      rw [howned]
      rcases launch_cases hload program argv outFile errFile (files ++ more) m₂ with
        ⟨failure, hprevents, hrun⟩ | ⟨m', hrun, -, hlaunched, hheld, hclosings, haccounts⟩
      · rw [hrun]
        exact .prevented hspawns₂ hopening₂ hprevents
      · rw [hrun]
        have hfiles := hlaunched.disk.files
        refine .launched (isFrame_spawns.trans hspawns₂ hlaunched) ⟨by rw [hopening₂.accounts],
          hclosings.trans hopening₂.closings, hopening₂.files.trans hfiles, files ++ more,
          by rw [haccounts, hopening₂.accounts], by rw [hheld, hopening₂.held],
          hopening₂.opened.nodup, ?_⟩
        intro i hi
        have hnew := hopening₂.opened.new i hi
        exact ⟨hnew.1, Nat.lt_of_lt_of_le hnew.2 hfiles⟩

theorem launched_openAndLaunch (hload : LoadsQuietly κ) (program : String) (argv : List String)
    (out err : Sink) (m : Machine κ) :
    Launched m ((openAndLaunch program argv out err).run m) := by
  unfold openAndLaunch
  rw [run_bind, run_get]
  dsimp only
  rw [run_bind]
  have hout := opened_openOutput out m
  generalize (openOutput out : Act κ (Option Nat)).run m = outcome at hout
  cases hout with
  | prevented hprevents =>
      exact .prevented (isFrame_spawns.refl m) (.of_sameBooks (isFrame_sameBooks.refl m)) hprevents
  | @opened outFile m₁ files hspawns hopening =>
      dsimp only
      have herr := launched_of_opening hload program argv outFile hspawns hopening
        (opened_openOutput err m₁)
      -- a path may be that of the first output, whose file is then shared
      cases err with
      | inherit => exact herr
      | file index => exact herr
      | path path =>
          dsimp only
          split
          · exact launched_of_opening hload program argv outFile hspawns hopening
              (opened_pure outFile m₁)
          · exact herr

/-! ## Starting a program -/

theorem tried_start (hload : LoadsQuietly κ) (program : String) (argv : List String)
    (out err : Sink) (m : Machine κ) : Tried m ((start program argv out err).run m) := by
  have hlaunched := launched_openAndLaunch hload program argv out err m
  unfold start
  rw [run_bind, run_get]
  dsimp only
  rw [run_tryCatch, run_map]
  generalize (openAndLaunch program argv out err : Act κ Nat).run m = outcome at hlaunched
  cases hlaunched with
  | launched hspawns hstarted => exact .started hspawns hstarted
  | @prevented failure m₁ files hspawns hopening hprevents =>
      rw [Failure.PreventsStart] at hprevents
      dsimp only
      rw [if_pos hprevents, run_bind, run_modify]
      dsimp only
      -- what was opened is released, and the remark does not touch the books
      have hbooks : SameBooks m { m₁ with held := m.held } :=
        ⟨hopening.accounts, rfl, hopening.closings, hopening.files⟩
      have hspawns' : Spawns m { m₁ with held := m.held } :=
        ⟨hspawns.disk, hspawns.environment, hspawns.previous⟩
      generalize ({ m₁ with held := m.held } : Machine κ) = m₂ at hbooks hspawns'
      have hremark := respects_remark ("cannot start " ++ Console.escape program ++ ": " ++
        Console.escape failure.message) m₂
      rw [stateAfter] at hremark
      have hbooks' := isFrame_sameBooks.trans hbooks (.of_quiet hremark)
      have hspawns'' := isFrame_spawns.trans hspawns' (.of_quiet hremark)
      rw [run_bind]
      generalize (remark ("cannot start " ++ Console.escape program ++ ": " ++
        Console.escape failure.message) : Act κ Unit).run m₂ = told at hbooks' hspawns''
      obtain ⟨other | _, m'⟩ := told
      · exact .failed hspawns'' hbooks'
      · exact .refused hspawns'' hbooks'

/-- Nothing is opened while the arguments are expanded and the program is announced. -/
theorem tried_startTraced (hload : LoadsQuietly κ) (program : String) (argv : List String)
    (out err : Sink) (m : Machine κ) : Tried m ((startTraced program argv out err).run m) := by
  refine tried_bind (respects_expandArguments argv) (fun arguments m => ?_) m
  refine tried_bind respects_verbose (fun verbose m => ?_) m
  have hstart := tried_start hload program arguments out err
  split
  · exact tried_bind (respects_remark _) (fun _ => hstart) m
  · exact hstart m

end Act

end BuildRunner
