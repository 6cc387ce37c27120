import BuildRunner.Proofs.Execution.Preparing
import BuildRunner.Proofs.Execution.Restoring

/-!
# Captured output

What a run captures is in the files that its program was started on.  Their paths name them for as
long as the directory of the start is the current one and the ways to them are kept.  Then the result
of the run is made of their texts, and they are what is removed in the end.
-/

namespace BuildRunner

variable {κ : Type}

/-- The texts at the places of captured output. -/
def Capture.texts (d : Disk) (places : String → Location) : Capture → String × String
  | .nowhere => ("", "")
  | .joined log => (d.textAt (places log), "")
  | .apart out err => (d.textAt (places out), d.textAt (places err))

/-- Paths name the given places, and at each of these is a file or nothing. -/
structure Disk.AreAt (d : Disk) (paths : List String) (places : String → Location) : Prop where
  names : ∀ path ∈ paths, d.Names path (places path)
  files : ∀ path ∈ paths,
    d.tree.kindAt (places path) = some .file ∨ d.tree.kindAt (places path) = none

theorem Disk.AreAt.congr {d d' : Disk} {paths : List String} {places : String → Location}
    (hat : d.AreAt paths places) (htree : d'.tree = d.tree) (hcwd : d'.cwd = d.cwd) :
    d'.AreAt paths places where
  names path hpath := (hat.names path hpath).of_keeps (htree ▸ Node.KeepsWays.refl _) hcwd
  files path hpath := htree ▸ hat.files path hpath

theorem Disk.AreAt.of_opens {d d' : Disk} {paths : List String} {places : String → Location}
    (hat : d.AreAt paths places) (hopens : d.Opens d') : d'.AreAt paths places where
  names path hpath := (hat.names path hpath).of_keeps hopens.tree.keepsWays hopens.current
  files path hpath := by
    rcases hopens.tree (places path) with hsame | ⟨-, hfile⟩
    · rw [hsame]
      exact hat.files path hpath
    · exact Or.inl hfile

theorem Disk.textAt_congr {d d' : Disk} (htree : d'.tree = d.tree) (location : Location) :
    d'.textAt location = d.textAt location := by
  rw [textAt, textAt, htree]

theorem Capture.texts_congr {d d' : Disk} (htree : d'.tree = d.tree) (places : String → Location)
    (capture : Capture) : capture.texts d' places = capture.texts d places := by
  cases capture with
  | nowhere => rfl
  | joined log => rw [texts, texts, Disk.textAt_congr htree]
  | apart out err => rw [texts, texts, Disk.textAt_congr htree, Disk.textAt_congr htree]

/-- Removing a file by its path leaves the others where they are. -/
theorem Disk.AreAt.of_rm {d : Disk} {first : String} {paths : List String}
    {places : String → Location} (hat : d.AreAt (first :: paths) places) :
    (stateAfter (DiskM.rm first false) d).AreAt paths places := by
  obtain ⟨-, hcwd, hkeeps⟩ := rm_named (hat.names first (by simp)) (hat.files first (by simp))
  refine ⟨fun other hother => ?_, fun other hother => ?_⟩
  · exact (hat.names other (List.mem_cons_of_mem _ hother)).of_keeps hkeeps hcwd
  · rcases (fades_rm first d).tree (places other) with hnone | hsame
    · exact Or.inr hnone
    · rw [hsame]
      exact hat.files other (List.mem_cons_of_mem _ hother)

/-- Removing files by their paths takes out what is at their places. -/
theorem kindAt_without {paths : List String} {places : String → Location} {d : Disk}
    (hat : d.AreAt paths places) {path : String} (hpath : path ∈ paths) :
    (d.without paths).tree.kindAt (places path) = none := by
  induction paths generalizing d with
  | nil => simp at hpath
  | cons first paths ih =>
      rw [Disk.without, List.foldl_cons]
      rcases List.mem_cons.mp hpath with rfl | hrest
      · -- later removals do not bring the file back
        have hgone := (rm_named (hat.names path (by simp)) (hat.files path (by simp))).1
        rcases (fades_without paths (stateAfter (DiskM.rm path false) d)).tree (places path) with
          hnone | hsame
        · exact hnone
        · exact hsame.trans hgone
      · exact ih hat.of_rm hrest

theorem keepsWays_without {paths : List String} {places : String → Location} {d : Disk}
    (hat : d.AreAt paths places) : d.tree.KeepsWays (d.without paths).tree := by
  induction paths generalizing d with
  | nil => exact .refl d.tree
  | cons first paths ih =>
      have hkeeps := (rm_named (hat.names first (by simp)) (hat.files first (by simp))).2.2
      exact hkeeps.trans (ih hat.of_rm)

namespace Act

/-- The result of a run is made of the texts at the places of its files. -/
theorem run_collect {call : Call} {places : String → Location} {m : Machine κ}
    (hat : m.disk.AreAt call.capture.paths places) (code : Int) :
    (collect call code : Act κ JobResult).run m =
      (.ok (call.wanted.result code (call.capture.texts m.disk places).1
        (call.capture.texts m.disk places).2), m) := by
  have hread : ∀ path ∈ call.capture.paths,
      (readText path : Act κ String).run m = (.ok (m.disk.textAt (places path)), m) :=
    fun path hpath => run_readText (hat.names path hpath) (hat.files path hpath)
  unfold collect
  cases hcapture : call.capture with
  | nowhere => rfl
  | joined log =>
      rw [hcapture] at hread
      dsimp only
      rw [run_bind, hread log (by simp [Capture.paths])]
      rfl
  | apart out err =>
      rw [hcapture] at hread
      dsimp only
      rw [run_bind, hread out (by simp [Capture.paths])]
      dsimp only
      rw [run_bind, hread err (by simp [Capture.paths])]
      rfl

/-! ## The files of a start -/

theorem spawns_openOutput (sink : Sink) : Respects Spawns (openOutput sink : Act κ (Option Nat)) := by
  intro m
  have hopened := opened_openOutput sink m
  rw [stateAfter]
  generalize (openOutput sink : Act κ (Option Nat)).run m = outcome at hopened
  cases hopened with
  | opened hspawns hopening => exact hspawns
  | prevented hprevents => exact isFrame_spawns.refl m

section

variable {path name : String} (hpath : NamesEntry path name)

include hpath

theorem hasFile_openOutput {m m' : Machine κ} {file : Option Nat}
    (hcwd : m.disk.tree.kindAt m.disk.cwd.base = some .directory) (hplain : m.disk.IsPlain path)
    (hrun : (openOutput (.path path) : Act κ (Option Nat)).run m = (.ok file, m')) :
    ∃ location, m'.disk.HasFile path location := by
  have hnul : Disk.hasNul path = false := by
    by_contra hnul
    rw [Bool.not_eq_false] at hnul
    simp only [openOutput, hnul] at hrun
    cases hrun
  rcases openOutput_path path m with ⟨failure, -, hfailed⟩ | ⟨disk, hopen, hopened⟩
  · rw [hfailed] at hrun
    cases hrun
  · rw [hopened] at hrun
    cases hrun
    exact Disk.hasFile_of_openFile hpath hnul hcwd hplain hopen

variable [Program κ] (hload : LoadsQuietly κ) {m m' : Machine κ} {out err : Sink}
  (hcwd : m.disk.tree.kindAt m.disk.cwd.base = some .directory) (hplain : m.disk.IsPlain path)
  (hsink : out = .path path ∨ err = .path path)

include hload hcwd hplain hsink

theorem hasFile_openAndLaunch {program : String} {argv : List String} {id : Nat}
    (hrun : (openAndLaunch program argv out err).run m = (.ok id, m')) :
    ∃ location, m'.disk.HasFile path location := by
  obtain ⟨_, _, hget, hrun⟩ := run_bind_eq_ok hrun
  cases hget
  obtain ⟨outFile, m₁, hout, hrun⟩ := run_bind_eq_ok hrun
  have hfirst : Spawns m m₁ := (spawns_openOutput out).of_run hout
  -- what the second output leaves in place is there when the program has been launched
  have hlaunch : ∀ {action : Act κ (Option Nat)},
      (∀ errFile m₂, action.run m₁ = (.ok errFile, m₂) →
        ∃ location, m₂.disk.HasFile path location) →
      (do
        let errFile ← action
        let now ← get
        launch program argv outFile errFile (now.held.drop m.held.length) : Act κ Nat).run m₁ =
          (.ok id, m') →
      ∃ location, m'.disk.HasFile path location := by
    intro action haction hrun
    obtain ⟨errFile, m₂, herr, hrun⟩ := run_bind_eq_ok hrun
    obtain ⟨_, _, hget, hrun⟩ := run_bind_eq_ok hrun
    cases hget
    obtain ⟨location, hfile⟩ := haction errFile m₂ herr
    rcases launch_cases hload program argv outFile errFile (m₂.held.drop m.held.length) m₂ with
      ⟨failure, -, hfailed⟩ | ⟨m₃, hlaunched, -, hspawns, -⟩
    · rw [hfailed] at hrun
      cases hrun
    · rw [hlaunched] at hrun
      cases hrun
      exact ⟨location, hfile.of_opens hspawns.disk⟩
  have hfromOut : out = .path path → ∃ location, m₁.disk.HasFile path location := by
    rintro rfl
    exact hasFile_openOutput hpath hcwd hplain hout
  have hopened : ∀ errFile m₂, (openOutput err : Act κ (Option Nat)).run m₁ = (.ok errFile, m₂) →
      ∃ location, m₂.disk.HasFile path location := by
    intro errFile m₂ herr
    rcases hsink with hsink | rfl
    · obtain ⟨location, hfile⟩ := hfromOut hsink
      exact ⟨location, hfile.of_opens ((spawns_openOutput err).of_run herr).disk⟩
    · refine hasFile_openOutput hpath ?_ (hplain.of_opens hfirst.disk) herr
      rw [hfirst.disk.current]
      exact hfirst.disk.tree.keepsWays _ _ trivial hcwd
  cases err with
  | inherit => exact hlaunch hopened hrun
  | file index => exact hlaunch hopened hrun
  | path other =>
      dsimp only at hrun
      split at hrun
      · next hshared =>
          refine hlaunch (fun errFile m₂ herr => ?_) hrun
          cases herr
          refine hfromOut ?_
          rcases hsink with hout | herr
          · exact hout
          · exact (eq_of_beq hshared).symm.trans herr
      · exact hlaunch hopened hrun

theorem hasFile_start {program : String} {argv : List String} {id : Nat}
    (hrun : (start program argv out err).run m = (.ok (some id), m')) :
    ∃ location, m'.disk.HasFile path location := by
  obtain ⟨_, _, hget, hrun⟩ := run_bind_eq_ok hrun
  cases hget
  rw [run_tryCatch, run_map] at hrun
  rcases hlaunch : (openAndLaunch program argv out err).run m with ⟨failure | other, m₁⟩
  · rw [hlaunch] at hrun
    dsimp only at hrun
    split at hrun
    · obtain ⟨_, _, -, hrun⟩ := run_bind_eq_ok hrun
      obtain ⟨_, _, -, hrun⟩ := run_bind_eq_ok hrun
      cases hrun
    · cases hrun
  · rw [hlaunch] at hrun
    cases hrun
    exact hasFile_openAndLaunch hpath hload hcwd hplain hsink hlaunch

theorem hasFile_startTraced {program : String} {argv : List String} {id : Nat}
    (hrun : (startTraced program argv out err).run m = (.ok (some id), m')) :
    ∃ location, m'.disk.HasFile path location := by
  obtain ⟨arguments, m₁, harguments, hrun⟩ := run_bind_eq_ok hrun
  obtain ⟨verbose, m₂, hverbose, hrun⟩ := run_bind_eq_ok hrun
  have hquiet : Quiet m m₂ := isFrame_quiet.trans
    ((respects_expandArguments argv).of_run harguments) (respects_verbose.of_run hverbose)
  have hstart : ∀ {m₃ : Machine κ}, Quiet m m₃ →
      (start program arguments out err).run m₃ = (.ok (some id), m') →
        ∃ location, m'.disk.HasFile path location := by
    intro m₃ hquiet₃ hrun₃
    refine hasFile_start hpath hload ?_ ?_ hsink hrun₃
    · rw [← hquiet₃.disk]
      exact hcwd
    · rw [← hquiet₃.disk]
      exact hplain
  split at hrun
  · obtain ⟨_, m₃, hremark, hrun⟩ := run_bind_eq_ok hrun
    exact hstart (isFrame_quiet.trans hquiet ((respects_remark _).of_run hremark)) hrun
  · exact hstart hquiet hrun

end

/-- A run that waits has its output captured in files that are there. -/
theorem hasFile_beginCall [Program κ] (hload : LoadsQuietly κ) {call : Call} {m m' : Machine κ}
    {delay : Option Nat} {waiting : Waiting} (hcaptured : Captured call)
    (hrun : (beginCall call).run m = (.ok (.suspended delay waiting), m'))
    (hcwd : m.disk.tree.kindAt m.disk.cwd.base = some .directory) {path name : String}
    (hmem : path ∈ call.capture.paths) (hpath : NamesEntry path name)
    (hplain : m.disk.IsPlain path) : ∃ location, m'.disk.HasFile path location := by
  have hsink : call.out = .path path ∨ call.err = .path path := by
    rw [Captured] at hcaptured
    cases hcapture : call.capture with
    | nowhere => simp [hcapture, Capture.paths] at hmem
    | joined log =>
        rw [hcapture, Capture.paths, List.mem_singleton] at hmem
        rw [hcapture] at hcaptured
        exact Or.inl (hmem ▸ hcaptured.1)
    | apart out err =>
        rw [hcapture, Capture.paths, List.mem_cons, List.mem_singleton] at hmem
        rw [hcapture] at hcaptured
        rcases hmem with rfl | rfl
        · exact Or.inl hcaptured.1
        · exact Or.inr hcaptured.2
  obtain ⟨started, m₁, hstarted, hrun⟩ := run_bind_eq_ok hrun
  have hstart : (startTraced call.program call.argv call.out call.err).run m = (.ok started, m₁) := by
    rcases onFailure_cases (startTraced call.program call.argv call.out call.err) (cleanUp call) m
      with ⟨other, hresult, hsame⟩ | ⟨_, failure, -, hfailed⟩
    · rw [hsame] at hstarted
      cases hstarted
      exact Prod.ext hresult rfl
    · rw [hfailed] at hstarted
      cases hstarted
  cases started with
  | none =>
      obtain ⟨result, m₂, -, hpure⟩ := run_bind_eq_ok hrun
      cases hpure
  | some id =>
      obtain ⟨saved, m₂, hsaved, hrun⟩ := run_bind_eq_ok hrun
      have hcurrent : m₂.disk = m₁.disk := by
        rcases onFailure_cases currentPath (ensuring (close id) (cleanUp call)) m₁ with
          ⟨path, -, hsame⟩ | ⟨_, failure, -, hfailed⟩
        · rw [hsame] at hsaved
          cases hsaved
          exact (respects_currentPath m₁).disk.symm
        · rw [hfailed] at hsaved
          cases hsaved
      have hwaited := waited_poll ⟨call, id, saved⟩ m₂
      rw [hrun] at hwaited
      cases hwaited with
      | suspended hquiet =>
          rw [← hquiet.disk, hcurrent]
          exact hasFile_startTraced hpath hload hcwd hplain hsink hstart

end Act

/-! ## The files at the end -/

/-- A run that is over with its first turn has left none of its files. -/
theorem Over.removed {call : Call} {m m' : Machine κ} (hover : Over call m m')
    {places : String → Location} (hat : m.disk.AreAt call.capture.paths places) {path : String}
    (hpath : path ∈ call.capture.paths) : m'.disk.tree.kindAt (places path) = none := by
  obtain ⟨d, hopens, hdisk⟩ := hover.disk
  rw [hdisk]
  exact kindAt_without (hat.of_opens hopens) hpath

/-- The result of a run that has waited is made of what its files held when it ended. -/
theorem Waited.result {waiting : Waiting} {m m' : Machine κ} {result : JobResult}
    (hwaited : Waited waiting m (.ok (.finished result), m')) {places : String → Location}
    (hat : (m.disk.backAt waiting.saved).AreAt waiting.call.capture.paths places) :
    ∃ code, result = waiting.call.wanted.result code (waiting.call.capture.texts m.disk places).1
      (waiting.call.capture.texts m.disk places).2 := by
  cases hwaited with
  | @finished code _ m₁ m₂ hbefore hcollect =>
      have hdisk : (stateAfter (Act.endWait waiting) m₁).disk = m.disk.backAt waiting.saved := by
        rw [Act.disk_endWait, ← hbefore.disk]
      rw [Act.run_collect (hdisk ▸ hat) code] at hcollect
      cases hcollect
      refine ⟨code, ?_⟩
      rw [hdisk, Capture.texts_congr (Disk.tree_backAt _ _)]

end BuildRunner
