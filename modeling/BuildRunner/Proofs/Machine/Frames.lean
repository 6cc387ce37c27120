import BuildRunner.Proofs.Machine.Running

/-!
# What actions leave alone

Most actions of a run only write to the console or work on the disk: the environment, the remembered
directory, the programs, the clock and the books on handles and open files stay as they are.
`Filing` says so, together with what the action may do to the disk.  An action that does nothing to
the disk either is quiet.  Of a handle the books only say which files it owns and whether it is
closed: asking for the status of its program is quiet as well.
-/

namespace BuildRunner

variable {κ α : Type}

/-- What the books say of a handle: the files that it owns, and whether it is closed. -/
def Handle.account (handle : Handle) : List Nat × Bool := (handle.owned, handle.closed)

def Machine.accounts (m : Machine κ) : List (List Nat × Bool) := m.handles.map Handle.account

/-- The machine is changed on the disk, as `D` allows, and where it keeps what was written, the
scratch names it has given out, and whether it is in a task. -/
structure Filing (D : Disk → Disk → Prop) (m m' : Machine κ) : Prop where
  disk : D m.disk m'.disk
  environment : m'.environment = m.environment
  previous : m'.previous = m.previous
  programs : m'.programs = m.programs
  clock : m'.clock = m.clock
  accounts : m'.accounts = m.accounts
  held : m'.held = m.held
  closings : m'.closings = m.closings

/-- Nothing is changed on the disk. -/
abbrev Quiet : Machine κ → Machine κ → Prop := Filing Eq

/-- Of what other tasks go by, the disk alone is changed, as `D` allows. -/
structure OnlyDisk (D : Disk → Disk → Prop) (m m' : Machine κ) : Prop where
  disk : D m.disk m'.disk
  environment : m'.environment = m.environment
  previous : m'.previous = m.previous

theorem Filing.onlyDisk {D : Disk → Disk → Prop} {m m' : Machine κ} (hfiling : Filing D m m') :
    OnlyDisk D m m' := ⟨hfiling.disk, hfiling.environment, hfiling.previous⟩

theorem OnlyDisk.mono {D E : Disk → Disk → Prop} (hDE : ∀ {d d'}, D d d' → E d d')
    {m m' : Machine κ} (honly : OnlyDisk D m m') : OnlyDisk E m m' :=
  ⟨hDE honly.disk, honly.environment, honly.previous⟩

theorem isFrame_eq : IsFrame (Eq : Disk → Disk → Prop) := ⟨fun _ => rfl, Eq.trans⟩

section

variable {D : Disk → Disk → Prop} (hD : IsFrame D)

include hD

theorem isFrame_filing : IsFrame (Filing D : Machine κ → Machine κ → Prop) where
  refl m := ⟨hD.refl m.disk, rfl, rfl, rfl, rfl, rfl, rfl, rfl⟩
  trans h h' :=
    { disk := hD.trans h.disk h'.disk
      environment := h'.environment.trans h.environment
      previous := h'.previous.trans h.previous
      programs := h'.programs.trans h.programs
      clock := h'.clock.trans h.clock
      accounts := h'.accounts.trans h.accounts
      held := h'.held.trans h.held
      closings := h'.closings.trans h.closings }

theorem isFrame_onlyDisk : IsFrame (OnlyDisk D : Machine κ → Machine κ → Prop) where
  refl m := ⟨hD.refl m.disk, rfl, rfl⟩
  trans h h' := ⟨hD.trans h.disk h'.disk, h'.environment.trans h.environment,
    h'.previous.trans h.previous⟩

theorem Filing.of_quiet {m m' : Machine κ} (hquiet : Quiet m m') : Filing D m m' :=
  { hquiet with disk := hquiet.disk ▸ hD.refl m.disk }

theorem OnlyDisk.of_quiet {m m' : Machine κ} (hquiet : Quiet m m') : OnlyDisk D m m' :=
  (Filing.of_quiet hD hquiet).onlyDisk

theorem respects_of_quiet {action : Act κ α} (haction : Respects Quiet action) :
    Respects (Filing D) action := fun m => .of_quiet hD (haction m)

end

theorem isFrame_quiet : IsFrame (Quiet : Machine κ → Machine κ → Prop) := isFrame_filing isFrame_eq

namespace Act

/-! ## Actions on the disk -/

theorem run_onDisk (action : DiskM α) (m : Machine κ) :
    (onDisk action).run m =
      (resultOf action m.disk, { m with disk := stateAfter action m.disk }) := by
  unfold onDisk
  rw [run_bind, run_get]
  dsimp only
  rw [run_eq action]
  dsimp only
  rw [run_bind, run_set]
  cases resultOf action m.disk with
  | ok a => rfl
  | error failure => rfl

theorem respects_onDisk {D : Disk → Disk → Prop} {action : DiskM α} (haction : Respects D action) :
    Respects (Filing D) (onDisk action : Act κ α) := by
  intro m
  rw [stateAfter, run_onDisk]
  exact ⟨haction m.disk, rfl, rfl, rfl, rfl, rfl, rfl, rfl⟩

/-! ## Quiet actions -/

theorem respects_printErr (markup : String) : Respects Quiet (printErr markup : Act κ Unit) := by
  refine respects_bind isFrame_quiet ?_ fun line m => ⟨rfl, rfl, rfl, rfl, rfl, rfl, rfl, rfl⟩
  unfold shownLine
  split
  · exact respects_pure isFrame_quiet _
  · exact respects_throw isFrame_quiet _

theorem respects_remark (markup : String) : Respects Quiet (remark markup : Act κ Unit) :=
  respects_printErr _

theorem respects_verbose : Respects Quiet (verbose : Act κ Bool) :=
  respects_bind isFrame_quiet (respects_get isFrame_quiet) fun _ => respects_pure isFrame_quiet _

theorem respects_settings : Respects Quiet (settings : Act κ Settings) := by
  refine respects_bind isFrame_quiet (respects_get isFrame_quiet) fun m => ?_
  split
  · exact respects_pure isFrame_quiet _
  · exact respects_throw isFrame_quiet _

theorem respects_suspension : Respects Quiet (suspension : Act κ (Option Nat)) :=
  respects_bind isFrame_quiet respects_settings fun _ => respects_pure isFrame_quiet _

theorem respects_currentPath : Respects Quiet (currentPath : Act κ String) := by
  refine respects_onDisk ?_
  refine respects_bind isFrame_eq (respects_get isFrame_eq) fun d => ?_
  split
  · exact respects_pure isFrame_eq _
  · exact respects_throw isFrame_eq _

theorem respects_readText (path : String) : Respects Quiet (readText path : Act κ String) := by
  refine respects_bind isFrame_quiet (respects_get isFrame_quiet) fun m => ?_
  split
  · exact respects_pure isFrame_quiet _
  · exact respects_pure isFrame_quiet _
  · exact respects_throw isFrame_quiet _

theorem respects_collect (call : Call) (code : Int) :
    Respects Quiet (collect call code : Act κ JobResult) := by
  unfold collect
  split
  · exact respects_pure isFrame_quiet _
  · exact respects_bind isFrame_quiet (respects_readText _) fun _ => respects_pure isFrame_quiet _
  · exact respects_bind isFrame_quiet (respects_readText _) fun _ =>
      respects_bind isFrame_quiet (respects_readText _) fun _ => respects_pure isFrame_quiet _

/-! ## Arguments of programs -/

theorem respects_matchPaths (pattern : String) (mode : Glob.Mode) :
    Respects Quiet (matchPaths pattern mode : Act κ (List String)) := by
  unfold matchPaths
  split
  · exact respects_pure isFrame_quiet _
  · refine respects_bind isFrame_quiet (respects_get isFrame_quiet) fun m => ?_
    split
    · exact respects_throw isFrame_quiet _
    · refine respects_bind isFrame_quiet respects_verbose fun verbose => ?_
      split
      · exact respects_bind isFrame_quiet (respects_remark _) fun _ =>
          respects_pure isFrame_quiet _
      · exact respects_pure isFrame_quiet _

theorem respects_expandArgument (argument : String) :
    Respects Quiet (expandArgument argument : Act κ (List String)) := by
  unfold expandArgument
  split
  · exact respects_bind isFrame_quiet (respects_matchPaths _ _) fun _ =>
      respects_pure isFrame_quiet _
  · exact respects_pure isFrame_quiet _

theorem respects_expandArguments (arguments : List String) :
    Respects Quiet (expandArguments arguments : Act κ (List String)) := by
  induction arguments with
  | nil => exact respects_pure isFrame_quiet _
  | cons argument arguments ih =>
      exact respects_bind isFrame_quiet (respects_expandArgument argument) fun _ =>
        respects_bind isFrame_quiet ih fun _ => respects_pure isFrame_quiet _

end Act

end BuildRunner
