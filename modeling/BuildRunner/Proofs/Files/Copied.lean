import BuildRunner.Proofs.Disk.Relocating
import BuildRunner.Proofs.Disk.Touching
import BuildRunner.Proofs.Execution.FirstTurns
import BuildRunner.Proofs.Files.Reporting

/-!
# Where copies land

Sources are copied one after the other, each to the destination itself or into it.  Whatever becomes
of the call, nothing is lost, and all that is new or changed belongs to the destination.  One kind
of source strays: a directory whose normal form ends in `..` has no name to be received under and
lands in the directory above.
-/

namespace BuildRunner

variable {κ : Type}

/-! ## One source -/

namespace Disk

variable {d : Disk} {path : String}

/-- What leads to a file ends in a name of its own. -/
theorem name_ne_dotdot_of_isFile (hcwd : d.tree.kindAt d.cwd.base = some .directory)
    (hfile : d.isFile path = true) : Path.name path ≠ ".." := by
  obtain ⟨parent, name, node, hleaf, -⟩ := exists_leaf_of_isFile hcwd hfile
  obtain ⟨last, hpath⟩ := namesEntry_of_leaf hleaf
  rw [hpath.name_eq]
  exact hpath.ne_dotdot

end Disk

section

variable {source target : String}

/-- A copy to a path alters nothing but what the path touches. -/
theorem alters_copyTo {d d' : Disk} {result : Except Failure Report}
    (hcwd : d.tree.kindAt d.cwd.base = some .directory)
    (hrun : (DiskM.copyTo source target).run d = (result, d')) : d.Alters target d' := by
  have hframe := isFrame_alters target
  unfold DiskM.copyTo at hrun
  rw [run_bind, run_get] at hrun
  dsimp only at hrun
  split at hrun
  · next hfile =>
      have hname := Disk.name_ne_dotdot_of_isFile hcwd hfile
      have hcopies : Respects (Disk.Alters target) (do
          DiskM.copyFile (.ofPath source) target
          return Report.success) :=
        respects_bind hframe (@respects_copyFile (.ofPath source) hname target) fun _ =>
          respects_pure hframe _
      split at hrun
      · next hparent =>
          have hne : Path.parent target ≠ "" := by simpa using hparent
          exact (respects_bind hframe (respects_makeDirectories_alters true (isFront_parent hne))
            fun _ => hcopies).of_run hrun
      · exact hcopies.of_run hrun
  · rw [run_bind, run_get] at hrun
    dsimp only at hrun
    split at hrun
    · exact (respects_bind hframe (respects_copyTree true source target) fun _ =>
        respects_pure hframe _).of_run hrun
    · cases hrun
      exact hframe.refl d

/-- A report of a copy leaves the disk as the copy to its landing place does. -/
theorem stateAfter_copyOne (source target : String) (d : Disk) :
    stateAfter (DiskM.copyOne source target) d =
      stateAfter (DiskM.copyTo source (d.landing source target)) d := by
  rw [stateAfter, DiskM.run_copyOne]
  refine stateAfter_reporting (fun reason => ?_) _ d
  exact respects_bind isFrame_eq (respects_kindOf isFrame_eq source) fun _ =>
    respects_pure isFrame_eq _

end

/-! ## All sources -/

/-- The source has no name of its own to be received under: its normal form leads up. -/
def Path.LeadsUp (source : String) : Prop := Path.name (Path.normalize source) = ".."

namespace Disk

/-- Nothing is lost or of another kind.  What has changed belongs to the target or, for a source
that leads up, to the directory above the target. -/
structure Received (d : Disk) (sources : List String) (target : String) (d' : Disk) : Prop where
  grown : d.GrownFrom d'
  added : d.tree.AddsOrdinary d'.tree
  touched : ∀ location, d'.tree.ownAt location ≠ d.tree.ownAt location →
    d.Touches target d' location ∨
      ∃ source ∈ sources, Path.LeadsUp source ∧ d.Below (Path.join target "..") location

variable {d t d' : Disk} {source target : String} {sources : List String}

theorem Received.of_unchanged (hproper : d.tree.Proper) : d.Received sources target d :=
  ⟨.self hproper, .refl d.tree, fun _ hne => absurd rfl hne⟩

theorem Received.cons (hfirst : d.Received [source] target t)
    (hrest : t.Received sources target d') : d.Received (source :: sources) target d' := by
  refine ⟨hfirst.grown.trans hrest.grown.grows,
    hfirst.added.trans hrest.added hrest.grown.grows.tree, fun location hne => ?_⟩
  by_cases hsame : d'.tree.ownAt location = t.tree.ownAt location
  · rw [hsame] at hne
    rcases hfirst.touched location hne with htouches | ⟨other, hmem, hup, hbelow⟩
    · exact Or.inl (htouches.of_after hrest.grown.grows)
    · exact Or.inr ⟨other, List.mem_cons.mpr (Or.inl (List.mem_singleton.mp hmem)), hup, hbelow⟩
  · rcases hrest.touched location hsame with htouches | ⟨other, hmem, hup, base, hgoal, hbelow⟩
    · exact Or.inl (htouches.of_before hfirst.grown.grows)
    · rw [goal_congr hfirst.grown.grows.current] at hgoal
      exact Or.inr ⟨other, List.mem_cons_of_mem _ hmem, hup, base, hgoal, hbelow⟩

end Disk

section

variable {d d' : Disk} {target : String}

/-- A source is received where it lands: at the target, under a name behind the target or, if it
leads up, above the target. -/
theorem received_of_copyOne {source : String} {result : Except Failure Report}
    (hproper : d.tree.Proper) (hlinkless : d.tree.Linkless)
    (hcwd : d.tree.kindAt d.cwd.base = some .directory)
    (hrun : (DiskM.copyOne source target).run d = (result, d')) :
    d.Received [source] target d' := by
  have hafter := stateAfter_copyOne source target d
  rw [stateAfter_of_run hrun] at hafter
  have haltered := alters_copyTo hcwd (run_eq (DiskM.copyTo source (d.landing source target)) d)
    hproper hlinkless
  rw [← hafter] at haltered
  refine ⟨haltered.grown, haltered.added, fun location hne => ?_⟩
  have htouches := haltered.touched location hne
  unfold Disk.landing at htouches
  split_ifs at htouches with hthere hfile hdirectory
  · exact Or.inl htouches
  · have hname := Disk.name_ne_dotdot_of_isFile hcwd hfile
    exact Or.inl (htouches.of_join (slash_not_mem_name _) hname)
  · by_cases hup : Path.LeadsUp source
    · rw [hup] at htouches
      exact (htouches.of_join_or (by decide)).imp_right fun hbelow =>
        ⟨source, List.mem_singleton_self _, hup, hbelow⟩
    · exact Or.inl (htouches.of_join (slash_not_mem_name _) hup)
  · exact Or.inl htouches

theorem received_of_copyAll {sources : List String} {result : Except Failure Report}
    (hproper : d.tree.Proper) (hlinkless : d.tree.Linkless)
    (hcwd : d.tree.kindAt d.cwd.base = some .directory)
    (hrun : (DiskM.copyAll target sources).run d = (result, d')) :
    d.Received sources target d' := by
  induction sources generalizing d with
  | nil =>
      cases hrun
      exact .of_unchanged hproper
  | cons source sources ih =>
      unfold DiskM.copyAll at hrun
      rw [run_bind] at hrun
      rcases hfirst : (DiskM.copyOne source target).run d with ⟨failure | report, t⟩
      · have hreceived := received_of_copyOne hproper hlinkless hcwd hfirst
        rw [hfirst] at hrun
        cases hrun
        exact hreceived.cons (.of_unchanged hreceived.grown.proper)
      · have hreceived := received_of_copyOne hproper hlinkless hcwd hfirst
        rw [hfirst] at hrun
        cases report with
        | success =>
            refine hreceived.cons (ih hreceived.grown.proper
              (hreceived.added.linkless hreceived.grown.grows.tree hlinkless) ?_ hrun)
            rw [hreceived.grown.grows.current]
            exact hreceived.grown.grows.tree _ _ hcwd
        | refused message =>
            cases hrun
            exact hreceived.cons (.of_unchanged hreceived.grown.proper)

end

namespace Act

/-- The copies run on the disk with the sources as they were expanded, unless there is nothing to be
copied. -/
theorem run_cp_cases {sources : List String} {target : String} {m m' : Machine κ}
    {result : Except Failure Report} (hrun : (cp (sources ++ [target])).run m = (result, m')) :
    (m'.disk = m.disk ∧ result ≠ .ok .success) ∨
      ∃ expanded, m.disk.expanded sources = .ok expanded ∧
        (DiskM.copyAll target expanded).run m.disk = (result, m'.disk) := by
  unfold cp at hrun
  rw [List.getLast?_concat] at hrun
  dsimp only at hrun
  split at hrun
  · cases hrun
    exact Or.inl ⟨rfl, by simp⟩
  · obtain ⟨line, hexpand⟩ := run_expandArguments sources m
    rw [List.dropLast_concat, run_bind, hexpand] at hrun
    cases hexpanded : m.disk.expanded sources with
    | error failure =>
        rw [hexpanded] at hrun
        cases hrun
        exact Or.inl ⟨rfl, by simp⟩
    | ok expanded =>
        rw [hexpanded] at hrun
        dsimp only at hrun
        rw [run_onDisk] at hrun
        cases hrun
        exact Or.inr ⟨expanded, rfl, rfl⟩

/-- Whatever a copy ends with, no entry is gone or of another kind.  An entry that is new or has
changed is at the destination or below it, or is a directory on the way there that was missing; only
sources that lead up may change what stands beside the destination. -/
theorem cp_stays_inside (sources : List String) (target : String) (m : Machine κ)
    (hproper : m.disk.tree.Proper) (hlinkless : m.disk.tree.Linkless)
    (hcwd : m.disk.tree.kindAt m.disk.cwd.base = some .directory) :
    let d' := (stateAfter (cp (sources ++ [target])) m).disk
    m.disk.tree.KeepsKinds d'.tree ∧
      ∀ location, d'.tree.ownAt location ≠ m.disk.tree.ownAt location →
        m.disk.Touches target d' location ∨
          ∃ expanded, m.disk.expanded sources = .ok expanded ∧
            ∃ source ∈ expanded, Path.LeadsUp source ∧
              m.disk.Below (Path.join target "..") location := by
  intro d'
  rcases run_cp_cases (run_eq (cp (sources ++ [target])) m) with
    ⟨hsame, -⟩ | ⟨expanded, hexpanded, hcopied⟩
  · have hd' : d' = m.disk := hsame
    rw [hd']
    exact ⟨.refl _, fun _ hne => absurd rfl hne⟩
  · have hreceived := received_of_copyAll hproper hlinkless hcwd hcopied
    refine ⟨hreceived.grown.grows.tree, fun location hne => ?_⟩
    exact (hreceived.touched location hne).imp_right fun hstrays => ⟨expanded, hexpanded, hstrays⟩

/-- A machine in a directory beside a file, with an empty directory elsewhere. -/
def nestedMachine : Machine Unit where
  disk :=
    { tree := (((Node.empty.put [] "a" .empty).put ["a"] "f" (.file [120] false none)).put ["a"] "w"
        .empty).put [] "o" .empty
      cwd := ⟨["a", "w"], []⟩ }
  environment := []

theorem proper_nestedMachine : nestedMachine.disk.tree.Proper := by
  refine Node.Proper.put ?_ (by decide) (by rintro _ ⟨⟩) rfl rfl
  refine Node.Proper.put ?_ (by decide) (by rintro _ ⟨⟩) rfl rfl
  refine Node.Proper.put ?_ (by decide) (by rintro _ ⟨⟩) rfl rfl
  exact Node.proper_empty.put (by decide) (by rintro _ ⟨⟩) rfl rfl

theorem linkless_nestedMachine : nestedMachine.disk.tree.Linkless := by
  refine Node.Ordinary.linkless ?_
  refine Node.Ordinary.put ?_ rfl rfl (Or.inl rfl)
  refine Node.Ordinary.put ?_ rfl rfl (Or.inl rfl)
  refine Node.Ordinary.put ?_ rfl rfl (Or.inr rfl)
  exact Node.ordinary_empty.put rfl rfl (Or.inl rfl)

/-- The file is received below the destination, and nothing has changed beside it. -/
theorem cp_stays_inside_nestedMachine :
    let d' := (stateAfter (cp ["../f", "/o"]) nestedMachine).disk
    d'.tree.kindAt ["o", "f"] = some .file ∧
      ∀ location, d'.tree.ownAt location ≠ nestedMachine.disk.tree.ownAt location →
        ["o"] <+: location := by
  intro d'
  refine ⟨by decide +kernel, fun location hne => ?_⟩
  rcases (cp_stays_inside ["../f"] "/o" nestedMachine proper_nestedMachine
    linkless_nestedMachine rfl).2 location hne with
    (⟨base, hgoal, hbelow⟩ | ⟨hfree, -, front, hfront, hway⟩) | ⟨expanded, hexpanded, hstrays⟩
  · cases hgoal
    exact hbelow
  · have hnames : pathNames "/o" = ["o"] := by decide
    rw [hnames] at hfront
    rcases List.prefix_cons_iff.mp hfront with rfl | ⟨rest, rfl, hrest⟩
    · cases hway
      cases hfree
    · rw [List.prefix_nil.mp hrest] at hway
      cases hway
      exact List.prefix_refl _
  · have hsources : nestedMachine.disk.expanded ["../f"] = .ok ["../f"] := rfl
    rw [hsources] at hexpanded
    cases hexpanded
    obtain ⟨source, hmem, hup, -⟩ := hstrays
    rw [List.mem_singleton] at hmem
    rw [hmem] at hup
    exact absurd hup (by unfold Path.LeadsUp; decide)

/-- The directory above is received beside the destination: its file stands at the root. -/
theorem strayed_nestedMachine :
    nestedMachine.disk.tree.kindAt ["f"] = none ∧
      resultOf (cp ["..", "/o"]) nestedMachine = .ok .success ∧
        (stateAfter (cp ["..", "/o"]) nestedMachine).disk.tree.kindAt ["f"] = some .file :=
  ⟨by decide, by decide +kernel, by decide +kernel⟩

end Act

end BuildRunner
