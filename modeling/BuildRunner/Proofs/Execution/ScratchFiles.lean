import BuildRunner.Proofs.Disk.Making
import BuildRunner.Proofs.Disk.Sinking
import BuildRunner.Proofs.Execution.Facades
import BuildRunner.Proofs.Execution.Scratch

/-!
# Captures in a scratch directory that stands

Where the scratch directory stands, naming a scratch file changes nothing on the disk.  The files
that a run captures its output in are then entries of that directory, and its program can be
started on them.
-/

namespace BuildRunner

variable {κ : Type}

/-- The scratch directory stands in the directory for temporary files, and the two names that are
given out next are free in it. -/
structure Machine.OffersScratch (m : Machine κ) (base : String) : Prop where
  settings : ∃ settings, Settings.read m.environment = .ok settings ∧
    settings.tmpdir.getD systemScratch = base
  stands : m.disk.isDirectory (Path.join base scratchName) = true
  /-- The name of a scratch file and a slash can be added. -/
  short : (Path.join base scratchName).utf8ByteSize + 33 < pathLimit
  free : ∀ k < 2, m.disk.entryExists (scratchFile base (m.scratch + k)) = false
  /-- There are numbers left for the files of one run. -/
  numbered : m.scratch + 1 < 16 ^ 32

/-! ## The names of scratch files -/

section

variable {d : Disk} {base : String}

/-- The last digits of two numbers in a row are not the same. -/
theorem scratchFileName_ne (n : Nat) : scratchFileName n ≠ scratchFileName (n + 1) := by
  have hlast : ∀ n, (Text.hex 32 n).getLast? = some (Nat.digitChar (n % 16)) := by
    intro n
    unfold Text.hex
    dsimp only
    rw [Nat.toDigits_eq_if (by decide)]
    split
    · next hlt => rw [List.getLast?_append, Nat.mod_eq_of_lt hlt]; rfl
    · rw [← List.append_assoc, List.getLast?_concat]
  have hdigits : ∀ k : Fin 16, Nat.digitChar k ≠ Nat.digitChar ((k + 1) % 16) := by decide
  intro hsame
  have hchars := congrArg List.getLast? (String.ofList_inj.mp hsame)
  rw [hlast, hlast, Option.some.injEq] at hchars
  refine hdigits ⟨n % 16, Nat.mod_lt n (by decide)⟩ ?_
  dsimp only
  rw [hchars, Nat.mod_add_mod]

/-- The files of two numbers in a row are at two places. -/
theorem ne_of_names_scratchFile {n : Nat} {p q : Location}
    (hfirst : d.Names (scratchFile base n) p) (hsecond : d.Names (scratchFile base (n + 1)) q) :
    p ≠ q := by
  rintro rfl
  have hlast := hfirst.getLast? (namesEntry_scratchFile base n)
  rw [hsecond.getLast? (namesEntry_scratchFile base (n + 1)), Option.some.injEq] at hlast
  exact scratchFileName_ne n hlast.symm

/-- Scratch files are entries of the directory that the path of the scratch directory leads to. -/
theorem exists_tip_scratchFile (hstands : d.isDirectory (Path.join base scratchName) = true)
    (hshort : (Path.join base scratchName).utf8ByteSize + 33 < pathLimit) :
    ∃ location, d.tree.kindAt location = some .directory ∧ ∀ n, n < 16 ^ 32 →
      d.tip (scratchFile base n) = .ok (⟨location, []⟩, .name (scratchFileName n) false) := by
  obtain ⟨⟨place, left⟩, henter⟩ := DiskM.exists_enter_of_isDirectory hstands
  have hplace : place.lost = [] ∧ d.tree.kindAt place.base = some .directory := by
    rw [pathNames_join isName_scratchName, enter_append] at henter
    cases hfound : enter d.tree linkLimit (startPlace d.cwd (Path.join base scratchName))
        (pathNames base) with
    | error code => simp [hfound, Except.bind] at henter
    | ok found =>
        rw [hfound] at henter
        dsimp only [Except.bind] at henter
        -- the directory above has an entry, so it has not been removed
        have hentry : ∃ kind, found.1.kindOf d.tree scratchName = some kind := by
          by_contra hnone
          have hkind : found.1.kindOf d.tree scratchName = none := by
            simpa [Option.eq_none_iff_forall_ne_some] using hnone
          rw [enter_singleton, if_neg (by decide), if_neg (by decide), if_neg (by decide),
            hkind] at henter
          cases henter
        obtain ⟨kind, hkind⟩ := hentry
        rw [Place.kindOf_eq] at hkind
        split at hkind
        · next hthere =>
            exact ⟨lost_of_enter hthere henter,
              kindAt_of_enter (kindAt_directory_of_nonempty hkind) henter⟩
        · cases hkind
  obtain ⟨location, lost⟩ := place
  obtain ⟨rfl, hdirectory⟩ : lost = [] ∧ d.tree.kindAt location = some .directory := hplace
  refine ⟨location, hdirectory, fun n hn => ?_⟩
  have hle := utf8ByteSize_join_le (Path.join base scratchName) (isName_scratchFileName n)
  have hname := utf8ByteSize_scratchFileName hn
  have hcheck : checkPath (scratchFile base n) = .ok () := by
    refine checkPath_of_short (Path.join_ne_empty (isName_scratchFileName n)) ?_
    rw [scratchFile]
    omega
  have hstart := startPlace_of_front (Path.join_ne_empty isName_scratchName)
    (prefix_join (isName_scratchFileName n) (Path.join base scratchName)) d.cwd
  rw [Disk.tip_eq d (namesEntry_scratchFile base n), hcheck, scratchFile,
    pathNames_join (isName_scratchFileName n), List.dropLast_concat, hstart, henter]
  rfl

/-- The paths of scratch files that are not there yet name entries that are free. -/
theorem exists_places (hstands : d.isDirectory (Path.join base scratchName) = true)
    (hshort : (Path.join base scratchName).utf8ByteSize + 33 < pathLimit) :
    ∃ places : String → Location, ∀ n, n < 16 ^ 32 →
      d.entryExists (scratchFile base n) = false →
        d.Names (scratchFile base n) (places (scratchFile base n)) ∧
          d.tree.kindAt (places (scratchFile base n)) = none ∧
            d.tree.kindAt (places (scratchFile base n)).dropLast = some .directory := by
  obtain ⟨location, hdirectory, htip⟩ := exists_tip_scratchFile hstands hshort
  refine ⟨fun path => location ++ (pathNames path).getLast?.toList, fun n hn hfree => ?_⟩
  have hpath := namesEntry_scratchFile base n
  have hplace : location ++ (pathNames (scratchFile base n)).getLast?.toList =
      location ++ [scratchFileName n] := by
    rw [hpath.last]
    rfl
  have hnul : Disk.hasNul (scratchFile base n) = false := by
    refine hasNul_join (Disk.hasNul_of_isDirectory hstands) ?_
    have hchars := @forall_mem_hex (fun c => c ≠ '\x00') (by decide) 32 n
    rw [Disk.hasNul_eq_false_iff, scratchFileName, String.toList_ofList]
    exact fun hmem => hchars _ hmem rfl
  have hnameShort : (scratchFileName n).utf8ByteSize ≤ greatestName := by
    rw [utf8ByteSize_scratchFileName hn]
    decide
  dsimp only
  rw [hplace]
  rw [List.dropLast_concat]
  refine ⟨⟨hnul, ⟨location, []⟩, scratchFileName n, rfl, rfl, hnameShort, hpath, htip n hn⟩, ?_,
    hdirectory⟩
  obtain ⟨links, hlocate⟩ := Disk.locate_of_tip hpath (htip n hn)
  have hlookup := @Place.lookup_entries d.tree ⟨location, []⟩ rfl (scratchFileName n)
  rw [Node.kindAt, Option.map_eq_none_iff]
  by_contra hthere
  obtain ⟨node, hnode⟩ := Option.ne_none_iff_exists'.mp hthere
  have hexists : d.entryExists (scratchFile base n) = true := by
    rw [Disk.entryExists_iff]
    refine ⟨hnul, ?_⟩
    rw [hlocate false, if_neg (Nat.not_lt.mpr hnameShort), hlookup, hnode]
    cases node with
    | _ => exact ⟨_, rfl, trivial⟩
  rw [hexists] at hfree
  cases hfree

end

/-! ## Opening the files of a run -/

/-- Outputs can be captured where their paths name files or nothing. -/
theorem Disk.AreAt.exists_readies {d : Disk} {out err : String} {places : String → Location}
    (hat : d.AreAt [out, err] places) :
    ∃ d', d.Readies (.path out) (.path err) d' ∧ d'.AreAt [out, err] places := by
  have hout : out ∈ [out, err] := List.mem_cons_self
  have herr : err ∈ [out, err] := List.mem_cons_of_mem _ List.mem_cons_self
  obtain ⟨d₁, first, hfirst⟩ := (hat.names out hout).exists_openFile (hat.files out hout) false
  have hopened := hat.of_opens (openFile_inv hfirst).2.2
  by_cases hsame : out = err
  · subst hsame
    exact ⟨d₁, .joined (hat.names out hout).no_nul hfirst, hopened⟩
  · obtain ⟨d₂, second, hsecond⟩ :=
      (hopened.names err herr).exists_openFile (hopened.files err herr) false
    exact ⟨d₂, .apart hsame (hat.names out hout).no_nul hfirst (hat.names err herr).no_nul hsecond,
      hopened.of_opens (openFile_inv hsecond).2.2⟩

/-! ## Naming the files of a run -/

/-- The files that a run captures its output in, by the number of the first. -/
def Wanted.capture (base : String) (n : Nat) : Wanted → Capture
  | .status => .nowhere
  | .output | .verdict => .joined (scratchFile base n)
  | .streams => .apart (scratchFile base n) (scratchFile base (n + 1))

/-- Where the outputs of a run go by default. -/
def Capture.sinks : Capture → Sink × Sink
  | .nowhere => (.inherit, .inherit)
  | .joined log => (.path log, .path log)
  | .apart out err => (.path out, .path err)

namespace Act

/-- A scratch directory that stands is not made again. -/
theorem run_scratchDirectory {m : Machine κ} {base : String}
    (hsettings : ∃ settings, Settings.read m.environment = .ok settings ∧
      settings.tmpdir.getD systemScratch = base)
    (hstands : m.disk.isDirectory (Path.join base scratchName) = true) :
    scratchDirectory.run m = (.ok (Path.join base scratchName), m) := by
  obtain ⟨settings, hread, rfl⟩ := hsettings
  unfold scratchDirectory
  rw [run_bind, run_settings]
  dsimp only
  rw [hread]
  dsimp only
  rw [run_bind, run_onDisk, resultOf, stateAfter,
    DiskM.run_makeDirectories_of_isDirectory hstands]
  rfl

section

variable {m : Machine κ} {base : String} (hscratch : m.OffersScratch base)

include hscratch

/-- Naming a scratch file uses up a number, and nothing else changes. -/
theorem run_scratchPath (n : Nat) :
    scratchPath.run { m with scratch := n } =
      (.ok (scratchFile base n), { m with scratch := n + 1 }) := by
  unfold scratchPath
  rw [run_bind, run_scratchDirectory (m := { m with scratch := n }) hscratch.settings
    hscratch.stands]
  rfl

theorem run_prepareCapture (wanted : Wanted) :
    ∃ next, (prepareCapture wanted).run m =
      (.ok (wanted.capture base m.scratch), { m with scratch := next }) := by
  have hfirst : scratchPath.run m =
      (.ok (scratchFile base m.scratch), { m with scratch := m.scratch + 1 }) :=
    run_scratchPath hscratch m.scratch
  cases wanted with
  | status => exact ⟨m.scratch, rfl⟩
  | output =>
      refine ⟨m.scratch + 1, ?_⟩
      unfold prepareCapture
      rw [run_bind, hfirst]
      rfl
  | verdict =>
      refine ⟨m.scratch + 1, ?_⟩
      unfold prepareCapture
      rw [run_bind, hfirst]
      rfl
  | streams =>
      refine ⟨m.scratch + 1 + 1, ?_⟩
      unfold prepareCapture
      rw [run_bind, hfirst]
      dsimp only
      rw [run_bind, run_scratchPath hscratch]
      rfl

/-- Where the scratch directory stands, naming the files of a run changes nothing on the disk, and a
program can be started on them. -/
theorem exists_run_prepareCapture (wanted : Wanted) :
    ∃ capture next d' places,
      (prepareCapture wanted).run m = (.ok capture, { m with scratch := next }) ∧
        m.disk.Readies capture.sinks.1 capture.sinks.2 d' ∧ d'.AreAt capture.paths places := by
  obtain ⟨next, hcapture⟩ := run_prepareCapture hscratch wanted
  obtain ⟨places, hplaces⟩ := exists_places hscratch.stands hscratch.short
  have hat : m.disk.AreAt [scratchFile base m.scratch, scratchFile base (m.scratch + 1)]
      places := by
    have hnumbered := hscratch.numbered
    obtain ⟨hfirst, hfirstFree, -⟩ := hplaces m.scratch (by omega) (hscratch.free 0 (by decide))
    obtain ⟨hsecond, hsecondFree, -⟩ := hplaces (m.scratch + 1) hnumbered
      (hscratch.free 1 (by decide))
    constructor
    · intro path hpath
      rcases List.mem_pair.mp hpath with rfl | rfl
      · exact hfirst
      · exact hsecond
    · intro path hpath
      rcases List.mem_pair.mp hpath with rfl | rfl
      · exact Or.inr hfirstFree
      · exact Or.inr hsecondFree
  have hjoined : ∃ d', m.disk.Readies (.path (scratchFile base m.scratch))
      (.path (scratchFile base m.scratch)) d' ∧ d'.AreAt [scratchFile base m.scratch] places := by
    have hone : m.disk.AreAt [scratchFile base m.scratch, scratchFile base m.scratch] places :=
      ⟨fun path hpath => hat.names path (by simp_all),
        fun path hpath => hat.files path (by simp_all)⟩
    obtain ⟨d', hreadies, hopened⟩ := hone.exists_readies
    exact ⟨d', hreadies, fun path hpath => hopened.names path (by simp_all),
      fun path hpath => hopened.files path (by simp_all)⟩
  refine ⟨wanted.capture base m.scratch, next, ?_⟩
  cases wanted with
  | status =>
      refine ⟨m.disk, places, hcapture, .inherited, ?_⟩
      exact ⟨fun path hpath => absurd hpath List.not_mem_nil,
        fun path hpath => absurd hpath List.not_mem_nil⟩
  | output =>
      obtain ⟨d', hreadies, hopened⟩ := hjoined
      exact ⟨d', places, hcapture, hreadies, hopened⟩
  | verdict =>
      obtain ⟨d', hreadies, hopened⟩ := hjoined
      exact ⟨d', places, hcapture, hreadies, hopened⟩
  | streams =>
      obtain ⟨d', hreadies, hopened⟩ := hat.exists_readies
      exact ⟨d', places, hcapture, hreadies, hopened⟩

end

end Act

end BuildRunner
