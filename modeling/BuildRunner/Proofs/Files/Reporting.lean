import BuildRunner.Proofs.Console.Lines
import BuildRunner.Proofs.Disk.Moving
import BuildRunner.Proofs.Files.Changing

/-!
# Refusals that are reported

The file helpers end with a report.  Two failures get past them: the path of the current directory
is asked for where that directory is gone, and a copy goes down more directories than calls may be
nested.
-/

namespace BuildRunner

variable {κ : Type}

/-! ## Reports of copies and moves -/

namespace DiskM

/-- A failure gets past a report only if it has no reason to give. -/
theorem reporting_eq_error {prefixed : String → DiskM String} {action : DiskM Report}
    {d d' : Disk} {failure : Failure}
    (hprefixed : ∀ reason d, ∃ text, resultOf (prefixed reason) d = .ok text)
    (hrun : (reporting prefixed action).run d = (.error failure, d')) :
    action.run d = (.error failure, d') ∧ ¬IsReported failure := by
  unfold reporting at hrun
  rw [run_tryCatch] at hrun
  rcases haction : action.run d with ⟨other | report, t⟩
  · rw [haction] at hrun
    dsimp only at hrun
    cases hreason : other.reason? with
    | none =>
        rw [hreason] at hrun
        cases hrun
        exact ⟨rfl, by simp [IsReported, hreason]⟩
    | some reason =>
        obtain ⟨text, htext⟩ := hprefixed reason t
        rw [hreason] at hrun
        dsimp only at hrun
        rw [run_bind, run_eq (prefixed reason), htext] at hrun
        cases hrun
  · rw [haction] at hrun
    cases hrun

end DiskM

/-- Where a source lands. -/
def Disk.landing (d : Disk) (source target : String) : String :=
  if !d.isDirectory target then target
  else if d.isFile source then Path.join target (Path.name source)
  else if d.isDirectory source then Path.join target (Path.name (Path.normalize source))
  else target

theorem run_landing (source target : String) (d : Disk) :
    (DiskM.landing source target).run d = (.ok (d.landing source target), d) := by
  unfold DiskM.landing Disk.landing
  rw [run_bind, run_get]
  dsimp only
  split_ifs
  · rfl
  · rfl
  · rfl
  · rfl

theorem hasNul_landing {source target : String} (d : Disk) (htarget : Disk.hasNul target = false) :
    Disk.hasNul (d.landing source target) = false := by
  unfold Disk.landing
  split_ifs with hdirectory hfile hbelow
  · exact htarget
  · exact hasNul_join htarget (hasNul_name (hasNul_of_isFile hfile))
  · exact hasNul_join htarget (hasNul_name (hasNul_normalize (Disk.hasNul_of_isDirectory hbelow)))
  · exact htarget

namespace DiskM

/-- Copies a source to the path where it lands. -/
def copyTo (source target : String) : DiskM Report := do
  if (← get).isFile source then
    let parent := Path.parent target
    if !parent.isEmpty then makeDirectories true parent
    copyFile (.ofPath source) target
    return .success
  else if (← get).isDirectory source then
    copyTree true source target
    return .success
  else return .refused ("cannot copy file " ++ source ++ ", not found this file")

theorem run_copyOne (source target : String) (d : Disk) :
    (copyOne source target).run d =
      (reporting
        (fun reason => do
          return "cannot copy " ++ (← kindOf source) ++ " " ++ source ++ " to " ++
            d.landing source target ++ " " ++ reason)
        (copyTo source (d.landing source target))).run d := by
  unfold copyOne
  rw [run_bind, run_landing]
  rfl

end DiskM

section

variable {d d' : Disk} {source target : String} {failure : Failure}

theorem endsWith_copyFileTo (hsource : Disk.hasNul source = false)
    (htarget : Disk.hasNul target = false) :
    EndsWith d.GrownFrom (fun _ => True) IsFault (do
      if !(Path.parent target).isEmpty then DiskM.makeDirectories true (Path.parent target)
      DiskM.copyFile (.ofPath source) target
      return Report.success) := by
  have hcopy : EndsWith d.GrownFrom (fun _ => True) IsFault (do
      DiskM.copyFile (.ofPath source) target
      return Report.success) :=
    endsWith_bind (endsWith_copyFile hsource htarget) fun _ _ => endsWith_pure trivial
  split
  · exact endsWith_bind (endsWith_makeDirectories true
      (hasNul_of_front (prefix_parent target) htarget)) fun _ _ => hcopy
  · exact hcopy

/-- A copy of one source leaves a disk that has grown, whatever it ends with. -/
theorem endsWith_copyTo (source : String) (htarget : Disk.hasNul target = false) :
    EndsWith d.GrownFrom (fun _ => True) IsCopyFailure (DiskM.copyTo source target) := by
  refine endsWith_bind endsWith_get fun now _ => ?_
  split
  · next hfile =>
      exact (endsWith_copyFileTo (hasNul_of_isFile hfile) htarget).mono (fun _ h => h)
        fun _ => Or.inl
  · refine endsWith_bind endsWith_get fun now _ => ?_
    split
    · next hdirectory =>
        exact endsWith_bind (endsWith_copyTreeFrom _ true
          (Disk.hasNul_of_isDirectory hdirectory) htarget) fun _ _ => endsWith_pure trivial
    · exact endsWith_pure trivial

theorem copyTo_eq_error (hproper : d.tree.Proper)
    (hcwd : d.tree.kindAt d.cwd.base = some .directory) (htarget : Disk.hasNul target = false)
    (hfailure : ¬IsReported failure)
    (hrun : (DiskM.copyTo source target).run d = (.error failure, d')) :
    failure = .outOfRange .nesting ∧ d'.IsDeep := by
  unfold DiskM.copyTo at hrun
  rw [run_bind, run_get] at hrun
  dsimp only at hrun
  split at hrun
  · next hfile =>
      have hends : EndsWith d.GrownFrom (fun _ => True) IsFault _ :=
        endsWith_copyFileTo (hasNul_of_isFile hfile) htarget
      exact absurd (hends.failure (.self hproper) hrun).reported hfailure
  · rw [run_bind, run_get] at hrun
    dsimp only at hrun
    split at hrun
    · next hdirectory =>
        rw [run_bind] at hrun
        rcases hcopy : (DiskM.copyTree true source target).run d with ⟨other | _, t⟩
        · rw [hcopy] at hrun
          cases hrun
          exact copyTree_eq_error hproper hcwd hdirectory htarget hfailure hcopy
        · rw [hcopy] at hrun
          cases hrun
    · cases hrun

theorem copyOne_eq_error (hproper : d.tree.Proper)
    (hcwd : d.tree.kindAt d.cwd.base = some .directory) (htarget : Disk.hasNul target = false)
    (hrun : (DiskM.copyOne source target).run d = (.error failure, d')) :
    failure = .outOfRange .nesting ∧ d'.IsDeep := by
  rw [DiskM.run_copyOne] at hrun
  obtain ⟨hcopy, hfailure⟩ := DiskM.reporting_eq_error (fun reason d => ⟨_, rfl⟩) hrun
  exact copyTo_eq_error hproper hcwd (hasNul_landing d htarget) hfailure hcopy

theorem grows_copyOne (hproper : d.tree.Proper) (htarget : Disk.hasNul target = false) :
    d.GrownFrom (stateAfter (DiskM.copyOne source target) d) := by
  have hreport : EndsWith d.GrownFrom (fun _ => True) (fun _ => True) (DiskM.reporting
      (fun reason => do
        return "cannot copy " ++ (← DiskM.kindOf source) ++ " " ++ source ++ " to " ++
          d.landing source target ++ " " ++ reason)
      (DiskM.copyTo source (d.landing source target))) := by
    refine endsWith_tryCatch (endsWith_copyTo source (hasNul_landing d htarget))
      fun failure _ => ?_
    split
    · exact fun d hd => ⟨hd, trivial⟩
    · exact endsWith_throw trivial
  rw [stateAfter, DiskM.run_copyOne]
  exact (hreport d (.self hproper)).1

theorem copyAll_eq_error {sources : List String} (hproper : d.tree.Proper)
    (hcwd : d.tree.kindAt d.cwd.base = some .directory) (htarget : Disk.hasNul target = false)
    (hrun : (DiskM.copyAll target sources).run d = (.error failure, d')) :
    failure = .outOfRange .nesting ∧ d'.IsDeep := by
  induction sources generalizing d with
  | nil => cases hrun
  | cons source sources ih =>
      have hgrown := @grows_copyOne d source target hproper htarget
      unfold DiskM.copyAll at hrun
      rw [run_bind] at hrun
      rcases hfirst : (DiskM.copyOne source target).run d with ⟨other | report, t⟩
      · rw [hfirst] at hrun
        cases hrun
        exact copyOne_eq_error hproper hcwd htarget hfirst
      · rw [stateAfter_of_run hfirst] at hgrown
        rw [hfirst] at hrun
        cases report with
        | success =>
            refine ih hgrown.proper ?_ hrun
            rw [hgrown.grows.current]
            exact hgrown.grows.tree _ _ hcwd
        | refused message => cases hrun

theorem mv_eq_error (hproper : d.tree.Proper)
    (hcwd : d.tree.kindAt d.cwd.base = some .directory) (htarget : Disk.hasNul target = false)
    (hrun : (DiskM.mv source target).run d = (.error failure, d')) :
    failure = .outOfRange .nesting ∧ d'.IsDeep := by
  unfold DiskM.mv at hrun
  rw [run_bind, run_get] at hrun
  dsimp only at hrun
  split at hrun
  · next hexists =>
      obtain ⟨hmove, hfailure⟩ := DiskM.reporting_eq_error (fun reason d => ⟨_, rfl⟩) hrun
      rw [run_bind] at hmove
      rcases hmoved : (DiskM.move source target).run d with ⟨other | _, t⟩
      · rw [hmoved] at hmove
        cases hmove
        exact move_eq_error hproper hcwd (Disk.hasNul_of_entryExists hexists) htarget hfailure hmoved
      · rw [hmoved] at hmove
        cases hmove
  · cases hrun

end

/-! ## Reports of removals -/

/-- What fails with reported failures only ends with a report. -/
theorem exists_report_reporting {prefixed : String → DiskM String} {action : DiskM Report}
    (hprefixed : ∀ reason d, ∃ text, resultOf (prefixed reason) d = .ok text)
    (haction : FailsAs IsReported action) (d : Disk) :
    ∃ report, resultOf (DiskM.reporting prefixed action) d = .ok report := by
  rcases hrun : (DiskM.reporting prefixed action).run d with ⟨failure | report, d'⟩
  · obtain ⟨hfailed, hfailure⟩ := DiskM.reporting_eq_error hprefixed hrun
    exact absurd (haction.failure hfailed) hfailure
  · exact ⟨report, resultOf_of_run hrun⟩

theorem Disk.exists_listNames {d : Disk} {path : String} (hpath : d.isDirectory path = true) :
    ∃ names, d.listNames path = .ok names := by
  unfold Disk.isDirectory Disk.node? at hpath
  rw [Disk.hasNul_of_isDirectory hpath, if_neg (by decide)] at hpath
  unfold Disk.listNames
  cases hstatus : d.status true path with
  | error code => simp [hstatus, Except.toOption] at hpath
  | ok found =>
      obtain ⟨place, node⟩ := found
      cases node with
      | dir es modified => exact ⟨es.map Prod.fst, rfl⟩
      | _ => simp [hstatus, Except.toOption, Node.isDir] at hpath

theorem exists_report_removeIfEmpty (directory : String) (d : Disk) :
    ∃ report, resultOf (DiskM.removeIfEmpty directory) d = .ok report := by
  unfold DiskM.removeIfEmpty
  rw [resultOf, run_bind, run_get]
  dsimp only
  split
  · exact ⟨_, rfl⟩
  · next hthere =>
      have hdirectory : d.isDirectory directory = true := by simp_all
      have hnul := Disk.hasNul_of_isDirectory hdirectory
      obtain ⟨names, hnames⟩ := Disk.exists_listNames hdirectory
      rw [run_bind, run_ask, hnul, if_neg (by decide), hnames]
      dsimp only
      split
      · exact ⟨_, rfl⟩
      · exact exists_report_reporting (fun _ _ => ⟨_, rfl⟩)
          (failsAs_bind (failsAs_change hnul _) fun _ => failsAs_pure _) d

theorem exists_report_rm (path : String) (prune : Bool) (d : Disk) :
    ∃ report, resultOf (DiskM.rm path prune) d = .ok report := by
  obtain ⟨removed, hremoved⟩ : ∃ report, resultOf (DiskM.reporting
      (fun reason => do
        return "cannot remove " ++ (← DiskM.kindOf path) ++ " " ++ path ++ " " ++ reason)
      do
        DiskM.removeAny path
        return .success) d = .ok report :=
    exists_report_reporting (fun _ _ => ⟨_, rfl⟩)
      (failsAs_bind (failsAs_removeAny path) fun _ => failsAs_pure Report.success) d
  unfold DiskM.rm
  rw [resultOf, run_bind, run_eq (DiskM.reporting _ _), hremoved]
  cases removed with
  | refused message => exact ⟨_, rfl⟩
  | success =>
      cases prune with
      | false => exact ⟨_, rfl⟩
      | true => exact exists_report_removeIfEmpty _ _

/-! ## Patterns among the sources -/

theorem Disk.currentPath_eq_error_iff {d : Disk} {code : Errno} :
    d.currentPath = .error code ↔ code = .notFound ∧ d.cwd.path? = none := by
  unfold Disk.currentPath
  cases d.cwd.path? with
  | none => simp [eq_comm]
  | some path => simp

/-- A pattern cannot be walked for if it starts in a current directory that is gone. -/
theorem matchPattern_eq_error {d : Disk} {pattern : String} {mode : Glob.Mode} {code : Errno}
    (hmatch : d.matchPattern pattern mode = .error code) :
    code = .notFound ∧ d.cwd.path? = none ∧
      Path.isAbsolute (Glob.Pattern.compile pattern).root = false := by
  unfold Disk.matchPattern at hmatch
  dsimp only at hmatch
  generalize Glob.Pattern.compile pattern = compiled at hmatch ⊢
  split at hmatch
  · cases hfind : d.find compiled.root (compiled.search mode) with
    | ok paths => simp [hfind, bind, Except.bind] at hmatch
    | error other =>
        simp only [hfind, bind, Except.bind, Except.error.injEq] at hmatch
        subst other
        unfold Disk.find Disk.findSelected at hfind
        split at hfind
        · cases hfind
        · split at hfind
          · split at hfind
            · cases hfind
            · next hbase =>
                rw [Except.error.injEq] at hfind
                unfold Disk.searchBase at hbase
                split at hbase
                · cases hbase
                · next hrelative => exact ⟨hfind.symm, hbase, by simpa using hrelative⟩
          · cases hfind
  · cases hmatch

namespace Act

theorem expandArgument_eq_error {argument : String} {m m' : Machine κ} {failure : Failure}
    (hrun : (expandArgument argument).run m = (.error failure, m')) :
    failure = .system .notFound none none ∧ m.disk.cwd.path? = none ∧ '*' ∈ argument.toList ∧
      Path.isAbsolute (Glob.Pattern.compile argument).root = false := by
  unfold expandArgument at hrun
  split at hrun
  · next hstar =>
      obtain ⟨line, hmatched⟩ := run_matchPaths argument .any m
      rw [run_bind, hmatched] at hrun
      have hgiven : argument.isEmpty = false := by
        rw [← Bool.not_eq_true, String.isEmpty_iff]
        rintro rfl
        cases hstar
      rw [hgiven, if_neg (by decide)] at hrun
      cases hmatch : m.disk.matchPattern argument .any with
      | ok paths =>
          rw [hmatch] at hrun
          cases hrun
      | error code =>
          rw [hmatch] at hrun
          obtain ⟨rfl, hlost, hrelative⟩ := matchPattern_eq_error hmatch
          cases hrun
          exact ⟨rfl, hlost, by simpa using hstar, hrelative⟩
  · cases hrun

theorem expandArguments_eq_error {arguments : List String} {m m' : Machine κ} {failure : Failure}
    (hrun : (expandArguments arguments).run m = (.error failure, m')) :
    failure = .system .notFound none none ∧ m.disk.cwd.path? = none ∧
      ∃ pattern ∈ arguments, '*' ∈ pattern.toList ∧
        Path.isAbsolute (Glob.Pattern.compile pattern).root = false := by
  induction arguments generalizing m with
  | nil => cases hrun
  | cons argument arguments ih =>
      have hquiet : Respects Quiet (expandArgument argument : Act κ (List String)) :=
        respects_expandArgument argument
      unfold expandArguments at hrun
      rw [run_bind] at hrun
      rcases hfirst : (expandArgument argument).run m with ⟨other | paths, m₁⟩
      · rw [hfirst] at hrun
        cases hrun
        obtain ⟨hfailure, hlost, hstar⟩ := expandArgument_eq_error hfirst
        exact ⟨hfailure, hlost, argument, List.mem_cons_self, hstar⟩
      · rw [hfirst] at hrun
        dsimp only at hrun
        rw [run_bind] at hrun
        rcases hrest : (expandArguments arguments).run m₁ with ⟨other | more, m₂⟩
        · rw [hrest] at hrun
          cases hrun
          obtain ⟨hfailure, hlost, pattern, hpattern, hstar⟩ := ih hrest
          rw [← (hquiet.of_run hfirst).disk] at hlost
          exact ⟨hfailure, hlost, pattern, List.mem_cons_of_mem _ hpattern, hstar⟩
        · rw [hrest] at hrun
          cases hrun

theorem cd_eq_error {directory : String} {m m' : Machine κ} {failure : Failure}
    (hrun : (cd directory).run m = (.error failure, m')) :
    failure = .system .notFound none none ∧ m.disk.currentPath = .error .notFound ∧
      ∃ target, m.wanted? directory = some target ∧ m.disk.isDirectory target = true := by
  rw [run_cd] at hrun
  cases hwanted : m.wanted? directory with
  | none =>
      rw [hwanted] at hrun
      cases hrun
  | some target =>
      rw [hwanted] at hrun
      dsimp only at hrun
      rw [← m.disk_recalled directory]
      cases hdirectory : (m.recalled directory).disk.isDirectory target with
      | false =>
          rw [run_cdTo_of_missing hdirectory] at hrun
          cases hrun
      | true =>
          obtain ⟨place, hlocate⟩ := Disk.exists_place_of_isDirectory hdirectory
          rw [run_cdTo_of_directory (Disk.hasNul_of_isDirectory hdirectory) hdirectory hlocate]
            at hrun
          cases hcurrent : (m.recalled directory).disk.currentPath with
          | ok current =>
              rw [hcurrent] at hrun
              cases hrun
          | error code =>
              rw [hcurrent] at hrun
              cases hrun
              obtain ⟨rfl, -⟩ := Disk.currentPath_eq_error_iff.mp hcurrent
              exact ⟨rfl, rfl, target, rfl, hdirectory⟩

theorem cp_eq_error {paths : List String} {m m' : Machine κ} {failure : Failure}
    (hproper : m.disk.tree.Proper)
    (hcwd : m.disk.tree.kindAt m.disk.cwd.base = some .directory)
    (hpaths : ∀ path ∈ paths, Disk.hasNul path = false)
    (hrun : (cp paths).run m = (.error failure, m')) :
    failure = .system .notFound none none ∧ m.disk.cwd.path? = none ∧
        (∃ pattern ∈ paths.dropLast, '*' ∈ pattern.toList ∧
          Path.isAbsolute (Glob.Pattern.compile pattern).root = false) ∨
      failure = .outOfRange .nesting ∧ m'.disk.IsDeep := by
  unfold cp at hrun
  split at hrun
  · cases hrun
  · next target hlast =>
      split at hrun
      · cases hrun
      · rw [run_bind] at hrun
        rcases hexpanded : (expandArguments paths.dropLast).run m with ⟨other | sources, m₁⟩
        · rw [hexpanded] at hrun
          cases hrun
          exact Or.inl (expandArguments_eq_error hexpanded)
        · have hsame := ((respects_expandArguments paths.dropLast).of_run hexpanded).disk
          rw [hexpanded] at hrun
          dsimp only at hrun
          rw [run_onDisk, ← hsame] at hrun
          rcases hcopied : (DiskM.copyAll target sources).run m.disk with ⟨other | report, d'⟩
          · rw [resultOf_of_run hcopied, stateAfter_of_run hcopied] at hrun
            cases hrun
            exact Or.inr (copyAll_eq_error hproper hcwd
              (hpaths target (List.mem_of_getLast? hlast)) hcopied)
          · rw [resultOf_of_run hcopied] at hrun
            cases hrun

end Act

/-! ## Calls of the helpers -/

/-- A call of a file helper. -/
inductive FileCall
  | cd (directory : String)
  | cp (paths : List String)
  | mv (source target : String)
  | rm (path : String) (prune : Bool)

namespace FileCall

def act : FileCall → Act κ Report
  | cd directory => Act.cd directory
  | cp paths => Act.cp paths
  | mv source target => Act.mv source target
  | rm path prune => Act.rm path prune

def arguments : FileCall → List String
  | cd directory => [directory]
  | cp paths => paths
  | mv source target => [source, target]
  | rm path _ => [path]

/-- The call needs the path of the current directory: to remember it, or to walk from it. -/
def AsksForHere (m : Machine κ) : FileCall → Prop
  | cd directory =>
    ∃ target, m.wanted? directory = some target ∧ m.disk.isDirectory target = true
  | cp paths =>
    ∃ pattern ∈ paths.dropLast, '*' ∈ pattern.toList ∧
      Path.isAbsolute (Glob.Pattern.compile pattern).root = false
  | mv .. => False
  | rm .. => False

/-- The call may copy a directory with all that it holds. -/
def Copies : FileCall → Prop
  | cd _ => False
  | cp _ => True
  | mv .. => True
  | rm .. => False

theorem proper_singleMachine : Act.singleMachine.disk.tree.Proper := by
  have hname : IsAccepted "d" := by decide
  have hproper : (Node.empty.put [] "d" .empty).Proper :=
    Node.proper_empty.put hname (fun _ hlink => by cases hlink) rfl rfl
  exact hproper

/-- The machine whose current directory is removed by now. -/
def strandedMachine : Machine Unit :=
  stateAfter (do
    let _ ← Act.cd "d"
    let _ ← Act.rm "/d" false) Act.singleMachine

end FileCall

end BuildRunner
