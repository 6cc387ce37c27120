import BuildRunner.Disk.Move
import BuildRunner.Proofs.Disk.Copying

/-!
# Moving entries

An entry is renamed, or copied and then removed.  Of the two ways only the copy of a directory can
fail with something that is not reported.
-/

namespace BuildRunner

section

variable {d d' : Disk} {source target : String} {failure : Failure}

theorem hasNul_lastSegment {path : String} (hpath : Disk.hasNul path = false) :
    Disk.hasNul (Path.lastSegment path) = false := by
  rw [Disk.hasNul_eq_false_iff] at hpath ⊢
  rw [Path.lastSegment, String.toList_ofList]
  exact fun hmem => hpath ((Path.prefix_dropSlashes _).subset
    ((Path.lastPart_suffix _).subset hmem))

theorem failsAs_change₂ {path other : String} {request : Disk → Except Errno Disk}
    (hpath : Disk.hasNul path = false) (hother : Disk.hasNul other = false) :
    FailsAs IsReported (DiskM.change₂ path other request) := by
  intro d failure hfailure
  rw [resultOf, run_change₂, hpath, hother, if_neg (by decide)] at hfailure
  cases hrequest : request d with
  | ok d' => simp [hrequest] at hfailure
  | error code =>
      simp only [hrequest, Except.error.injEq] at hfailure
      exact hfailure ▸ isReported_system _ _ _

namespace Disk

/-- The path as seen from the root of the disk, in normal form. -/
def absolutePath (d : Disk) (path : String) : Except Errno String :=
  if Path.isAbsolute path then .ok (Path.normalize path)
  else d.currentPath.map fun here => Path.absolute here path

/-- Whether the text of a path, closed by a slash, begins with that of another one. -/
def textWithin (source target : String) : Bool :=
  let closed (path : String) : List Char :=
    if path.toList.getLast? == some '/' then path.toList else path.toList ++ ['/']
  (closed source).isPrefixOf (closed target)

/-- Whether the absolute form of a path lies at or below that of another, by their texts. -/
def liesWithin (d : Disk) (source target : String) : Except Errno Bool :=
  (d.absolutePath source).bind fun source =>
    (d.absolutePath target).map fun target => textWithin source target

end Disk

theorem run_absolutePath (path : String) (d : Disk) :
    (DiskM.absolutePath path).run d =
      ((d.absolutePath path).mapError fun code => .system code none none, d) := by
  unfold DiskM.absolutePath Disk.absolutePath
  split
  · rfl
  · unfold DiskM.currentPath
    rw [run_bind, run_bind, run_get]
    dsimp only
    cases d.currentPath with
    | ok here => rfl
    | error code => rfl

theorem run_liesWithin (source target : String) (d : Disk) :
    (DiskM.liesWithin source target).run d =
      ((d.liesWithin source target).mapError fun code => .system code none none, d) := by
  unfold DiskM.liesWithin Disk.liesWithin
  rw [run_bind, run_absolutePath]
  cases d.absolutePath source with
  | error code => rfl
  | ok first =>
      simp only [Except.mapError, Except.bind]
      rw [run_bind, run_absolutePath]
      cases d.absolutePath target with
      | error code => rfl
      | ok second => rfl

namespace DiskM

/-- Makes a link anew and removes the old one. -/
def moveLink (source landing : String) : DiskM Unit := do
  let linked ← ask source fun d => d.readLink source
  change₂ linked landing fun d => d.makeLink linked landing
  change source fun d => d.unlink source

/-- Copies a directory and removes it. -/
def moveDirectory (source target landing : String) : DiskM Unit := do
  if ← liesWithin source target then throw (.intoItself source target)
  copyTree false source landing
  removeTree source

/-- Copies a file and removes it. -/
def moveFile (source landing : String) : DiskM Unit := do
  copyFile (.ofPath source) landing
  change source fun d => d.unlink source

theorem run_moveByCopy (source target landing : String) (d : Disk) :
    (moveByCopy source target landing).run d =
      if d.isLink source then (moveLink source landing).run d
      else if d.isDirectory source then (moveDirectory source target landing).run d
      else (moveFile source landing).run d := by
  unfold moveByCopy
  rw [run_bind, run_get]
  dsimp only
  split
  · rfl
  · rw [run_bind, run_get]
    dsimp only
    split
    · rfl
    · rfl

/-- An entry is copied only if it could not be renamed. -/
theorem run_moveTo {source landing : String} (hsource : Disk.hasNul source = false)
    (hlanding : Disk.hasNul landing = false) (target : String) (d : Disk) :
    (moveTo source target landing).run d =
      match d.rename source landing with
      | .ok d' => (.ok (), d')
      | .error _ => (moveByCopy source target landing).run d := by
  unfold moveTo
  rw [run_tryCatch, run_change₂, hsource, hlanding, if_neg (by decide)]
  cases d.rename source landing with
  | ok d' => rfl
  | error code => rfl

theorem run_sameEntry {a b : String} (ha : Disk.hasNul a = false) (hb : Disk.hasNul b = false)
    (d : Disk) : (sameEntry a b).run d = (.ok ((d.sameEntry a b).toOption.getD false), d) := by
  unfold sameEntry
  rw [ha, hb, Bool.or_self, if_neg (by decide), run_bind, run_get]
  dsimp only
  cases d.sameEntry a b with
  | ok same => rfl
  | error code => rfl

theorem run_move {source target : String} (hsource : Disk.hasNul source = false)
    (htarget : Disk.hasNul target = false) (d : Disk) :
    (move source target).run d =
      if d.isDirectory target then
        if (d.sameEntry source target).toOption.getD false then
          (change₂ source target fun d => d.rename source target).run d
        else if d.pathExists (Path.join target (Path.lastSegment source)) then
          (.error (.occupied (Path.join target (Path.lastSegment source))), d)
        else (moveTo source target (Path.join target (Path.lastSegment source))).run d
      else (moveTo source target target).run d := by
  unfold move
  rw [run_bind, run_get]
  dsimp only
  split
  · rw [run_bind, run_sameEntry hsource htarget]
    dsimp only
    split
    · rfl
    · rw [run_bind, run_get]
      dsimp only
      split
      · rfl
      · rfl
  · rfl

end DiskM

theorem moveLink_eq_error {landing : String} (hproper : d.tree.Proper)
    (hsource : Disk.hasNul source = false) (hlanding : Disk.hasNul landing = false)
    (hrun : (DiskM.moveLink source landing).run d = (.error failure, d')) :
    IsReported failure := by
  unfold DiskM.moveLink at hrun
  rw [run_bind, run_ask, hsource, if_neg (by decide)] at hrun
  cases hread : d.readLink source with
  | error code =>
      rw [hread] at hrun
      cases hrun
      exact isReported_system _ _ _
  | ok linked =>
      rw [hread] at hrun
      have hrest : FailsAs IsReported (do
          DiskM.change₂ linked landing fun d => d.makeLink linked landing
          DiskM.change source fun d => d.unlink source) :=
        failsAs_bind (failsAs_change₂ (hasNul_of_readLink hproper hread) hlanding) fun _ =>
          failsAs_change hsource _
      exact hrest.failure hrun

theorem moveFile_eq_error {landing : String} (hproper : d.tree.Proper)
    (hsource : Disk.hasNul source = false) (hlanding : Disk.hasNul landing = false)
    (hrun : (DiskM.moveFile source landing).run d = (.error failure, d')) :
    IsReported failure := by
  have hcopy : EndsWith d.GrownFrom (fun _ => True) IsFault
      (DiskM.copyFile (.ofPath source) landing) := endsWith_copyFile hsource hlanding
  have hremove : FailsAs IsReported (DiskM.change source fun d => d.unlink source) :=
    failsAs_change hsource _
  unfold DiskM.moveFile at hrun
  rw [run_bind] at hrun
  rcases hcopied : (DiskM.copyFile (.ofPath source) landing).run d with ⟨other | _, t⟩
  · rw [hcopied] at hrun
    cases hrun
    exact (hcopy.failure (.self hproper) hcopied).reported
  · rw [hcopied] at hrun
    exact hremove.failure hrun

theorem moveDirectory_eq_error {landing : String} (hproper : d.tree.Proper)
    (hcwd : d.tree.kindAt d.cwd.base = some .directory) (hsource : d.isDirectory source = true)
    (hlanding : Disk.hasNul landing = false) (hfailure : ¬IsReported failure)
    (hrun : (DiskM.moveDirectory source target landing).run d = (.error failure, d')) :
    failure = .outOfRange .nesting ∧ d'.IsDeep := by
  unfold DiskM.moveDirectory at hrun
  rw [run_bind, run_liesWithin] at hrun
  cases hwithin : d.liesWithin source target with
  | error code =>
      rw [hwithin] at hrun
      cases hrun
      exact absurd (isReported_system _ _ _) hfailure
  | ok within =>
      rw [hwithin] at hrun
      cases within with
      | true =>
          cases hrun
          exact absurd rfl hfailure
      | false =>
          have hcopied : (DiskM.copyTree false source landing >>= fun _ =>
              DiskM.removeTree source).run d = (.error failure, d') := hrun
          rw [run_bind] at hcopied
          rcases hcopy : (DiskM.copyTree false source landing).run d with ⟨other | _, t⟩
          · rw [hcopy] at hcopied
            cases hcopied
            exact copyTree_eq_error hproper hcwd hsource hlanding hfailure hcopy
          · rw [hcopy] at hcopied
            exact absurd ((failsAs_removeTree (Disk.hasNul_of_isDirectory hsource)).failure
              hcopied) hfailure

theorem moveByCopy_eq_error {landing : String} (hproper : d.tree.Proper)
    (hcwd : d.tree.kindAt d.cwd.base = some .directory) (hsource : Disk.hasNul source = false)
    (hlanding : Disk.hasNul landing = false) (hfailure : ¬IsReported failure)
    (hrun : (DiskM.moveByCopy source target landing).run d = (.error failure, d')) :
    failure = .outOfRange .nesting ∧ d'.IsDeep := by
  rw [DiskM.run_moveByCopy] at hrun
  split_ifs at hrun with hlink hdirectory
  · exact absurd (moveLink_eq_error hproper hsource hlanding hrun) hfailure
  · exact moveDirectory_eq_error hproper hcwd hdirectory hlanding hfailure hrun
  · exact absurd (moveFile_eq_error hproper hsource hlanding hrun) hfailure

theorem moveTo_eq_error {landing : String} (hproper : d.tree.Proper)
    (hcwd : d.tree.kindAt d.cwd.base = some .directory) (hsource : Disk.hasNul source = false)
    (hlanding : Disk.hasNul landing = false) (hfailure : ¬IsReported failure)
    (hrun : (DiskM.moveTo source target landing).run d = (.error failure, d')) :
    failure = .outOfRange .nesting ∧ d'.IsDeep := by
  rw [DiskM.run_moveTo hsource hlanding] at hrun
  cases hrename : d.rename source landing with
  | ok moved =>
      rw [hrename] at hrun
      cases hrun
  | error code =>
      rw [hrename] at hrun
      exact moveByCopy_eq_error hproper hcwd hsource hlanding hfailure hrun

theorem move_eq_error (hproper : d.tree.Proper)
    (hcwd : d.tree.kindAt d.cwd.base = some .directory) (hsource : Disk.hasNul source = false)
    (htarget : Disk.hasNul target = false) (hfailure : ¬IsReported failure)
    (hrun : (DiskM.move source target).run d = (.error failure, d')) :
    failure = .outOfRange .nesting ∧ d'.IsDeep := by
  rw [DiskM.run_move hsource htarget] at hrun
  split_ifs at hrun with hdirectory hsame hoccupied
  · exact absurd ((failsAs_change₂ hsource htarget).failure hrun) hfailure
  · cases hrun
    exact absurd rfl hfailure
  · exact moveTo_eq_error hproper hcwd hsource
      (hasNul_join htarget (hasNul_lastSegment hsource)) hfailure hrun
  · exact moveTo_eq_error hproper hcwd hsource htarget hfailure hrun

end

end BuildRunner
