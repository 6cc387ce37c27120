import BuildRunner.Proofs.Disk.Making
import BuildRunner.Proofs.Execution.Ending

/-!
# Scratch files

The output of a run is captured in files below the scratch directory.  Naming them makes the
directory and does nothing else, and each of their paths ends in a proper name.  Where the directory
for temporary files is given by an absolute path, so are they.
-/

namespace BuildRunner

variable {κ : Type}

/-- The current directory and the open files stay as they are, and so do the ways in the tree. -/
structure Disk.Stays (d d' : Disk) : Prop where
  tree : d.tree.KeepsWays d'.tree
  current : d'.cwd = d.cwd
  files : d'.files = d.files

theorem isFrame_stays : IsFrame Disk.Stays where
  refl d := ⟨.refl d.tree, rfl, rfl⟩
  trans h h' := ⟨h.tree.trans h'.tree, h'.current.trans h.current, h'.files.trans h.files⟩

/-! ## Making the scratch directory -/

theorem stays_of_makeDirectory {d d' : Disk} {path : String}
    (hmake : d.makeDirectory path = .ok d') : d.Stays d' := by
  unfold Disk.makeDirectory at hmake
  cases htip : d.tip path with
  | error code => simp [htip, bind, Except.bind] at hmake
  | ok found =>
      obtain ⟨parent, last⟩ := found
      rw [htip] at hmake
      cases last with
      | name name slash =>
          simp only [bind, Except.bind] at hmake
          cases hentry : d.entryAt parent name with
          | error code => simp [hentry] at hmake
          | ok found =>
              cases found with
              | some node => simp [hentry] at hmake
              | none =>
                  simp only [hentry] at hmake
                  obtain ⟨hlost, rfl⟩ := Disk.create_inv hmake
                  have hvacant : (parent.entries d.tree).lookup name = none := by
                    unfold Disk.entryAt at hentry
                    split at hentry
                    · cases hentry
                    · exact Except.ok.inj hentry
                  have hfree := Disk.kindAt_of_lookup_none hlost hvacant
                  exact ⟨Node.keepsWays_put rfl hfree, rfl, rfl⟩
      | _ => simp [bind, Except.bind] at hmake

theorem respects_makeDirectories (existOk : Bool) (path : String) :
    Respects Disk.Stays (DiskM.makeDirectories existOk path) :=
  DiskM.respects_makeDirectories isFrame_stays existOk fun _ _ _ _ _ => stays_of_makeDirectory

/-! ## Scratch paths -/

/-- The directory for temporary files is not given by a relative path. -/
def Environment.HasAbsoluteScratch (environment : Environment) : Prop :=
  ∀ directory, environment.lookup tmpdirVariable = some directory →
    directory.isEmpty = false → Path.isAbsolute directory = true

/-- What holds of the sixteen digits holds of every character of a number. -/
theorem forall_mem_hex {P : Char → Prop} (hdigit : ∀ k : Fin 16, P (Nat.digitChar k))
    (width n : Nat) : ∀ c ∈ Text.hex width n, P c := by
  have hdigits : ∀ n, ∀ c ∈ Nat.toDigits 16 n, P c := by
    intro n
    induction n using Nat.strongRecOn with
    | ind n ih =>
        intro c hc
        rw [Nat.toDigits_eq_if (by decide)] at hc
        split at hc
        · next hlt =>
            rw [List.mem_singleton] at hc
            exact hc ▸ hdigit ⟨n, hlt⟩
        · next hge =>
            rcases List.mem_append.mp hc with hc | hc
            · exact ih (n / 16) (by omega) c hc
            · rw [List.mem_singleton] at hc
              exact hc ▸ hdigit ⟨n % 16, Nat.mod_lt n (by decide)⟩
  intro c hc
  rcases List.mem_append.mp hc with hc | hc
  · exact List.eq_of_mem_replicate hc ▸ hdigit 0
  · exact hdigits n c hc

theorem isName_hex (width n : Nat) : Path.IsName (Text.hex width n) := by
  have hchars := @forall_mem_hex (fun c => c ≠ '/' ∧ c ≠ '.') (by decide) width n
  rw [Path.isName_iff]
  refine ⟨?_, fun hc => (hchars '/' hc).1 rfl, ?_, ?_⟩
  · exact List.append_ne_nil_of_right_ne_nil _ Nat.toDigits_ne_nil
  · intro hdot
    exact (hchars '.' (hdot ▸ by simp)).2 rfl
  · intro hdot
    exact (hchars '.' (hdot ▸ by simp)).2 rfl

/-- A path for a scratch file in an environment. -/
structure IsScratch (environment : Environment) (path : String) : Prop where
  entry : ∃ name, NamesEntry path name
  absolute : environment.HasAbsoluteScratch → Path.isAbsolute path = true

theorem isFrame_preparing : IsFrame (Filing Disk.Stays : Machine κ → Machine κ → Prop) :=
  isFrame_filing isFrame_stays

namespace Act

theorem respects_scratchDirectory :
    Respects (Filing Disk.Stays) (scratchDirectory : Act κ String) := by
  refine respects_bind isFrame_preparing (respects_of_quiet isFrame_stays respects_settings)
    fun settings => ?_
  exact respects_bind isFrame_preparing (respects_onDisk (respects_makeDirectories true _))
    fun _ => respects_pure isFrame_preparing _

theorem respects_scratchPath : Respects (Filing Disk.Stays) (scratchPath : Act κ String) := by
  refine respects_bind isFrame_preparing respects_scratchDirectory fun directory => ?_
  refine respects_bind isFrame_preparing (respects_get isFrame_preparing) fun now => ?_
  refine respects_bind isFrame_preparing (fun m => ?_) fun _ => respects_pure isFrame_preparing _
  exact ⟨isFrame_stays.refl _, rfl, rfl, rfl, rfl, rfl, rfl, rfl⟩

theorem respects_prepareCapture (wanted : Wanted) :
    Respects (Filing Disk.Stays) (prepareCapture wanted : Act κ Capture) := by
  unfold prepareCapture
  split
  · exact respects_pure isFrame_preparing _
  · exact respects_bind isFrame_preparing respects_scratchPath fun _ =>
      respects_pure isFrame_preparing _
  · exact respects_bind isFrame_preparing respects_scratchPath fun _ =>
      respects_pure isFrame_preparing _
  · exact respects_bind isFrame_preparing respects_scratchPath fun _ =>
      respects_bind isFrame_preparing respects_scratchPath fun _ =>
        respects_pure isFrame_preparing _

theorem respects_prepare (job : Job) :
    Respects (Filing Disk.Stays) (prepare job : Act κ (JobResult ⊕ Call)) := by
  unfold prepare
  split
  · split
    · exact respects_pure isFrame_preparing _
    · exact respects_pure isFrame_preparing _
  · exact respects_bind isFrame_preparing (respects_prepareCapture _) fun capture =>
      respects_pure isFrame_preparing _

theorem run_settings (m : Machine κ) :
    (settings : Act κ Settings).run m = (Settings.read m.environment, m) := by
  unfold settings
  rw [run_bind, run_get]
  dsimp only
  cases Settings.read m.environment with
  | ok settings => rfl
  | error failure => rfl

/-- The directory for temporary files is absolute unless the environment gives a relative one. -/
theorem isAbsolute_tmpdir {environment : Environment} {settings : Settings}
    (habsolute : environment.HasAbsoluteScratch)
    (hsettings : Settings.read environment = .ok settings) :
    Path.isAbsolute (settings.tmpdir.getD systemScratch) = true := by
  unfold Settings.read at hsettings
  cases hinterval : pollInterval (environment.lookup intervalVariable) with
  | error failure => simp [hinterval, bind, Except.bind] at hsettings
  | ok interval =>
      simp only [hinterval, bind, Except.bind, Except.ok.injEq] at hsettings
      subst hsettings
      dsimp only
      cases hlookup : environment.lookup tmpdirVariable with
      | none => decide
      | some directory =>
          rw [Option.bind_some]
          cases hempty : directory.isEmpty with
          | true =>
              rw [if_pos rfl]
              decide
          | false =>
              rw [if_neg (by decide)]
              exact habsolute directory hlookup hempty

theorem isScratch_of_scratchPath {m m' : Machine κ} {path : String}
    (hrun : (scratchPath : Act κ String).run m = (.ok path, m')) :
    IsScratch m.environment path := by
  obtain ⟨directory, m₁, hdirectory, hrun⟩ := run_bind_eq_ok hrun
  obtain ⟨settings, m₂, hsettings, hmade⟩ := run_bind_eq_ok hdirectory
  obtain ⟨_, m₃, -, hpure⟩ := run_bind_eq_ok hmade
  cases hpure
  cases hrun
  rw [run_settings] at hsettings
  have hnumber : Path.IsName (String.ofList (Text.hex 32 m₁.scratch)).toList := by
    rw [String.toList_ofList]
    exact isName_hex 32 _
  refine ⟨⟨_, namesEntry_join hnumber _⟩, fun habsolute => ?_⟩
  have htmpdir := isAbsolute_tmpdir habsolute (congrArg Prod.fst hsettings)
  exact Path.isAbsolute_join (Path.isAbsolute_join htmpdir)

/-- The output of a run is captured in scratch files. -/
theorem isScratch_of_prepareCapture {wanted : Wanted} {capture : Capture} {m m' : Machine κ}
    (hrun : (prepareCapture wanted : Act κ Capture).run m = (.ok capture, m')) :
    ∀ path ∈ capture.paths, IsScratch m.environment path := by
  have hjoined : ∀ {log : String} {m₁ : Machine κ},
      (scratchPath : Act κ String).run m = (.ok log, m₁) →
        ∀ path ∈ (Capture.joined log).paths, IsScratch m.environment path := by
    intro log m₁ hlog path hpath
    rw [Capture.paths, List.mem_singleton] at hpath
    exact hpath ▸ isScratch_of_scratchPath hlog
  unfold prepareCapture at hrun
  cases wanted with
  | status =>
      cases hrun
      simp [Capture.paths]
  | output =>
      obtain ⟨log, m₁, hlog, hpure⟩ := run_bind_eq_ok hrun
      cases hpure
      exact hjoined hlog
  | verdict =>
      obtain ⟨log, m₁, hlog, hpure⟩ := run_bind_eq_ok hrun
      cases hpure
      exact hjoined hlog
  | streams =>
      obtain ⟨out, m₁, hout, hrest⟩ := run_bind_eq_ok hrun
      obtain ⟨err, m₂, herr, hpure⟩ := run_bind_eq_ok hrest
      cases hpure
      have hsame := (respects_scratchPath.of_run hout).environment
      intro path hpath
      rw [Capture.paths, List.mem_cons, List.mem_singleton] at hpath
      rcases hpath with rfl | rfl
      · exact isScratch_of_scratchPath hout
      · exact hsame ▸ isScratch_of_scratchPath herr

/-- The sinks of a run that is captured are its scratch files. -/
def Captured (call : Call) : Prop :=
  match call.capture with
  | .nowhere => True
  | .joined log => call.out = .path log ∧ call.err = .path log
  | .apart out err => call.out = .path out ∧ call.err = .path err

theorem call_of_prepare {job : Job} {call : Call} {m m' : Machine κ}
    (hrun : (prepare job : Act κ (JobResult ⊕ Call)).run m = (.ok (.inr call), m')) :
    (∀ path ∈ call.capture.paths, IsScratch m.environment path) ∧ Captured call := by
  unfold prepare at hrun
  split at hrun
  · split at hrun
    · cases hrun
    · cases hrun
  · obtain ⟨capture, m₁, hcapture, hpure⟩ := run_bind_eq_ok hrun
    cases hpure
    refine ⟨isScratch_of_prepareCapture hcapture, ?_⟩
    cases capture with
    | nowhere => trivial
    | joined log => exact ⟨rfl, rfl⟩
    | apart out err => exact ⟨rfl, rfl⟩

end Act

end BuildRunner
