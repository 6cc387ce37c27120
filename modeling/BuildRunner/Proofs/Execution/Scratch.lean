import BuildRunner.Proofs.Disk.Joining
import BuildRunner.Proofs.Execution.Capturing
import Mathlib.Data.Nat.Digits.Defs

/-!
# The scratch directory in place

Scratch files are kept in one directory, which is made where it is missing.  As long as it stands
and holds nothing but files under their names, it can be made, and every scratch file can be read;
one that was never made is empty.
-/

namespace BuildRunner

/-- The name of a scratch file by its number. -/
def scratchFileName (n : Nat) : String := String.ofList (Text.hex 32 n)

/-- The path of a scratch file, with the directory for temporary files. -/
def scratchFile (base : String) (n : Nat) : String :=
  Path.join (Path.join base scratchName) (scratchFileName n)

/-- Scratch files can be named below a directory for temporary files. -/
structure FitsScratch (base : String) : Prop where
  absolute : Path.isAbsolute base = true
  no_nul : Disk.hasNul base = false
  /-- The name of a scratch file and a slash can be added. -/
  short : (Path.join base scratchName).utf8ByteSize + 33 < pathLimit

/-- The scratch directory stands, and under the names of scratch files it holds nothing but
files. -/
structure Node.HasScratch (tree : Node) (base : String) (location : Location) : Prop where
  stands : locate tree .root true (Path.join base scratchName) = .ok (.directory ⟨location, []⟩)
  files : ∀ n, tree.kindAt (location ++ [scratchFileName n]) = some .file ∨
    tree.kindAt (location ++ [scratchFileName n]) = none

/-- The scratch directory stands, or can be made. -/
inductive Node.KeepsScratch (tree : Node) (base : String) : Prop
  | made {location : Location} (hscratch : tree.HasScratch base location) : KeepsScratch tree base
  | missing {location : Location}
      (hbase : locate tree .root true base = .ok (.directory ⟨location, []⟩))
      (hmissing : tree.kindAt (location ++ [scratchName]) = none) : KeepsScratch tree base

/-- The current directory is there, the names of directories are free of NUL, and the scratch
directory is in place. -/
structure Disk.InPlace (d : Disk) (base : String) : Prop where
  here : d.cwd.lost = []
  found : d.tree.kindAt d.cwd.base = some .directory
  no_nul : ∀ location, d.tree.kindAt location = some .directory →
    ∀ name ∈ location, '\x00' ∉ name.toList
  scratch : d.tree.KeepsScratch base

/-! ## Paths below the directory for temporary files -/

theorem isName_scratchName : Path.IsName scratchName.toList := by
  rw [Path.isName_iff]
  decide

theorem isName_scratchFileName (n : Nat) : Path.IsName (scratchFileName n).toList := by
  rw [scratchFileName, String.toList_ofList]
  exact isName_hex 32 n

theorem namesEntry_scratchFile (base : String) (n : Nat) :
    NamesEntry (scratchFile base n) (scratchFileName n) :=
  namesEntry_join (isName_scratchFileName n) _

theorem utf8ByteSize_ofList {chars : List Char} (hchars : ∀ c ∈ chars, c.utf8Size = 1) :
    (String.ofList chars).utf8ByteSize = chars.length := by
  induction chars with
  | nil => rfl
  | cons c chars ih =>
      have hfirst : (String.singleton c).utf8ByteSize = 1 := by
        rw [String.utf8ByteSize_singleton]
        exact hchars c List.mem_cons_self
      rw [String.ofList_cons, String.utf8ByteSize_append, hfirst,
        ih fun d hd => hchars d (List.mem_cons_of_mem c hd), List.length_cons, Nat.add_comm]

theorem utf8ByteSize_scratchFileName {n : Nat} (hn : n < 16 ^ 32) :
    (scratchFileName n).utf8ByteSize = 32 := by
  have hdigits := Nat.toDigits_length 16 n 32 (by decide) hn
  rw [scratchFileName, utf8ByteSize_ofList (forall_mem_hex (by decide) 32 n), Text.hex,
    List.length_append, List.length_replicate]
  omega

namespace FitsScratch

variable {base : String} (hbase : FitsScratch base)

include hbase

theorem ne_empty : base ≠ "" := by
  rintro rfl
  exact absurd hbase.absolute (by decide)

theorem no_nul_scratch : Disk.hasNul (Path.join base scratchName) = false :=
  hasNul_join hbase.no_nul (by decide)

theorem no_nul_file (n : Nat) : Disk.hasNul (scratchFile base n) = false := by
  refine hasNul_join hbase.no_nul_scratch ?_
  have hchars := @forall_mem_hex (fun c => c ≠ '\x00') (by decide) 32 n
  rw [Disk.hasNul, scratchFileName, String.toList_ofList, List.contains_eq_mem,
    decide_eq_false_iff_not]
  exact fun hmem => hchars _ hmem rfl

/-- Paths that begin as the scratch directory does are looked up from the root. -/
theorem startPlace_of_front {path : String} (hne : path ≠ "")
    (hfront : path.toList <+: (Path.join base scratchName).toList) (here : Place) :
    startPlace here path = .root := by
  rw [← BuildRunner.startPlace_of_front hne hfront]
  exact startPlace_of_isAbsolute (Path.isAbsolute_join hbase.absolute) here

theorem checkPath_of_prefix {path : String} (hne : path ≠ "")
    (hfront : path.toList <+: (Path.join base scratchName).toList) : checkPath path = .ok () := by
  have hle := le_utf8ByteSize_of_prefix hfront
  have hshort := hbase.short
  exact checkPath_of_short hne (by omega)

theorem checkPath_base : checkPath base = .ok () :=
  hbase.checkPath_of_prefix hbase.ne_empty (prefix_join isName_scratchName base)

theorem checkPath_scratch : checkPath (Path.join base scratchName) = .ok () :=
  hbase.checkPath_of_prefix (Path.join_ne_empty isName_scratchName) (List.prefix_refl _)

theorem checkPath_file {n : Nat} (hn : n < 16 ^ 32) : checkPath (scratchFile base n) = .ok () := by
  have hle := utf8ByteSize_join_le (Path.join base scratchName) (isName_scratchFileName n)
  have hname := utf8ByteSize_scratchFileName hn
  have hshort := hbase.short
  refine checkPath_of_short (Path.join_ne_empty (isName_scratchFileName n)) ?_
  rw [scratchFile]
  omega

theorem startPlace_file (n : Nat) (here : Place) : startPlace here (scratchFile base n) = .root :=
  startPlace_of_isAbsolute (Path.isAbsolute_join (Path.isAbsolute_join hbase.absolute)) here

/-! ## Scratch files -/

variable {location : Location} {n : Nat} (hn : n < 16 ^ 32)

theorem enter_scratch {tree : Node}
    (hstands : locate tree .root true (Path.join base scratchName) =
      .ok (.directory ⟨location, []⟩)) :
    ∃ left, enter tree linkLimit .root (pathNames (Path.join base scratchName)) =
      .ok (⟨location, []⟩, left) := by
  obtain ⟨left, hleft⟩ := (locate_eq_directory_iff hbase.checkPath_scratch).mp hstands
  rw [hbase.startPlace_of_front (Path.join_ne_empty isName_scratchName) (List.prefix_refl _)]
    at hleft
  exact ⟨left, hleft⟩

theorem enter_base {tree : Node}
    (hstands : locate tree .root true base = .ok (.directory ⟨location, []⟩)) :
    ∃ left, enter tree linkLimit .root (pathNames base) = .ok (⟨location, []⟩, left) := by
  obtain ⟨left, hleft⟩ := (locate_eq_directory_iff hbase.checkPath_base).mp hstands
  rw [hbase.startPlace_of_front hbase.ne_empty (prefix_join isName_scratchName base)] at hleft
  exact ⟨left, hleft⟩

include hn

/-- Where the scratch directory stands, the path of a scratch file names an entry of it. -/
theorem names_scratchFile {d : Disk} (hscratch : d.tree.HasScratch base location) :
    d.Names (scratchFile base n) (location ++ [scratchFileName n]) := by
  have hpath := namesEntry_scratchFile base n
  obtain ⟨left, henter⟩ := hbase.enter_scratch hscratch.stands
  have htip : d.tip (scratchFile base n) =
      .ok (⟨location, []⟩, .name (scratchFileName n) false) := by
    rw [Disk.tip_eq d hpath, hbase.checkPath_file hn, hbase.startPlace_file, scratchFile,
      pathNames_join (isName_scratchFileName n), List.dropLast_concat, henter]
    rfl
  have hshort : (scratchFileName n).utf8ByteSize ≤ greatestName := by
    rw [utf8ByteSize_scratchFileName hn]
    decide
  exact ⟨hbase.no_nul_file n, ⟨location, []⟩, scratchFileName n, rfl, rfl, hshort, hpath, htip⟩

/-- Where the scratch directory is not there, neither is a scratch file. -/
theorem locate_scratchFile {d : Disk}
    (hstands : locate d.tree .root true base = .ok (.directory ⟨location, []⟩))
    (hmissing : d.tree.kindAt (location ++ [scratchName]) = none) (follow : Bool) :
    d.locate follow (scratchFile base n) = .error .notFound := by
  obtain ⟨left, henter⟩ := hbase.enter_base hstands
  have hkind : (⟨location, []⟩ : Place).kindOf d.tree scratchName = none := by
    rw [Place.kindOf_eq, if_pos rfl]
    exact hmissing
  have hnothing : enter d.tree left ⟨location, []⟩ [scratchName] = .error .notFound := by
    rw [enter_singleton, if_neg (by decide), if_neg (by decide), if_neg (by decide), hkind]
  rw [Disk.locate_eq _ (namesEntry_scratchFile base n), hbase.checkPath_file hn,
    hbase.startPlace_file, scratchFile, pathNames_join (isName_scratchFileName n),
    List.dropLast_concat, pathNames_join isName_scratchName, enter_append, henter]
  dsimp only [Except.bind]
  rw [hnothing]

/-- A scratch file can be read, be it that it was never made. -/
theorem exists_run_readText {κ : Type} {m : Machine κ} (hkeeps : m.disk.tree.KeepsScratch base) :
    ∃ text, (Act.readText (scratchFile base n) : Act κ String).run m = (.ok text, m) := by
  cases hkeeps with
  | made hscratch =>
      exact ⟨_, Act.run_readText (hbase.names_scratchFile hn hscratch) (hscratch.files n)⟩
  | missing hstands hmissing =>
      have hread : m.disk.read (scratchFile base n) = .error .notFound := by
        unfold Disk.read Disk.status
        rw [hbase.locate_scratchFile hn hstands hmissing]
        rfl
      refine ⟨"", ?_⟩
      unfold Act.readText
      rw [run_bind, run_get]
      dsimp only
      rw [hread]
      rfl

/-! ## Making the scratch directory -/

omit hn

/-- The directory above is found where the names on the way to it can be entered. -/
theorem pathExists_of_enter {d : Disk} {head : String} {found : Place × Nat} (hne : head ≠ "")
    (hnames : pathNames head = pathNames base)
    (hfront : head.toList <+: (Path.join base scratchName).toList)
    (henter : enter d.tree linkLimit .root (pathNames base) = .ok found) :
    d.pathExists head = true := by
  have hlocate : d.locate true head = .ok (.directory found.1) := by
    rw [Disk.locate, locate_eq_directory_iff (hbase.checkPath_of_prefix hne hfront),
      hbase.startPlace_of_front hne hfront, hnames]
    exact ⟨found.2, henter⟩
  unfold Disk.pathExists Disk.node? Disk.status
  rw [hasNul_of_front hfront hbase.no_nul_scratch, if_neg (by decide), hlocate]
  rfl

/-- Where the directory for temporary files stands, making the scratch directory is one request. -/
theorem run_makeDirectories {d : Disk} {found : Place × Nat}
    (henter : enter d.tree linkLimit .root (pathNames base) = .ok found) :
    (DiskM.makeDirectories true (Path.join base scratchName)).run d =
      match d.makeDirectory (Path.join base scratchName) with
      | .ok d' => (.ok (), d')
      | .error code =>
        if d.isDirectory (Path.join base scratchName) then (.ok (), d)
        else (.error (.system code (some (Path.join base scratchName)) none), d) := by
  obtain ⟨head, hsplit, hne, hnames, hfront⟩ := splitLast_join isName_scratchName hbase.ne_empty
  have hexists := hbase.pathExists_of_enter hne hnames hfront henter
  have hnul := hbase.no_nul_scratch
  unfold DiskM.makeDirectories DiskM.makeDirectoriesFrom
  rw [hsplit]
  dsimp only
  rw [run_bind, run_get]
  dsimp only
  rw [hexists, Bool.not_true, Bool.and_false, if_neg (by decide), Bool.false_and,
    if_neg (by decide), run_tryCatch]
  unfold DiskM.change
  rw [run_bind, run_ask, hnul, if_neg (by decide)]
  cases d.makeDirectory (Path.join base scratchName) with
  | ok d' => rfl
  | error code =>
      dsimp only
      rw [run_bind, run_get]
      dsimp only
      cases d.isDirectory (Path.join base scratchName) with
      | true => rfl
      | false => rfl

/-- The directory that is made stands, and there is nothing in it. -/
theorem hasScratch_put {tree : Node} (hroot : tree.kindAt [] = some .directory)
    (hstands : locate tree .root true base = .ok (.directory ⟨location, []⟩))
    (hmissing : tree.kindAt (location ++ [scratchName]) = none) :
    (tree.put location scratchName .empty).HasScratch base (location ++ [scratchName]) := by
  obtain ⟨left, henter⟩ := hbase.enter_base hstands
  have hput := @Node.kindAt_put tree location scratchName .empty rfl hmissing
  have hkeeps := @Node.keepsWays_put tree location scratchName .empty rfl hmissing
  have hdirectory : tree.kindAt location = some .directory := kindAt_of_enter hroot henter
  constructor
  · rw [locate_eq_directory_iff hbase.checkPath_scratch,
      hbase.startPlace_of_front (Path.join_ne_empty isName_scratchName) (List.prefix_refl _),
      pathNames_join isName_scratchName, enter_append, enter_of_keeps hkeeps henter]
    have hkind : (⟨location, []⟩ : Place).kindOf (tree.put location scratchName .empty)
        scratchName = some .directory := by
      rw [Place.kindOf_eq, if_pos rfl, hput, if_pos ⟨rfl, hdirectory⟩]
      rfl
    refine ⟨left, ?_⟩
    dsimp only [Except.bind]
    rw [enter_singleton, if_neg (by decide), if_neg (by decide), if_neg (by decide), hkind]
    rfl
  · intro n
    have hnew : location ++ [scratchName] ++ [scratchFileName n] ≠ location ++ [scratchName] := by
      simp
    right
    rw [hput, if_neg fun h => hnew h.1]
    cases hkind : tree.kindAt (location ++ [scratchName] ++ [scratchFileName n]) with
    | none => rfl
    | some kind =>
        have habove := kindAt_directory_of_nonempty hkind
        rw [hmissing] at habove
        cases habove

theorem tip_scratch {d : Disk} {found : Place × Nat}
    (henter : enter d.tree linkLimit .root (pathNames base) = .ok found) :
    d.tip (Path.join base scratchName) = .ok (found.1, .name scratchName false) := by
  rw [Disk.tip_eq d (namesEntry_join isName_scratchName base), hbase.checkPath_scratch,
    hbase.startPlace_of_front (Path.join_ne_empty isName_scratchName) (List.prefix_refl _),
    pathNames_join isName_scratchName, List.dropLast_concat, henter]
  rfl

theorem isDirectory_scratch {d : Disk} (hroot : d.tree.kindAt [] = some .directory)
    (hscratch : d.tree.HasScratch base location) :
    d.isDirectory (Path.join base scratchName) = true := by
  obtain ⟨left, henter⟩ := hbase.enter_scratch hscratch.stands
  have hlocate : d.locate true (Path.join base scratchName) = .ok (.directory ⟨location, []⟩) := by
    rw [Disk.locate, locate_eq_directory_iff hbase.checkPath_scratch,
      hbase.startPlace_of_front (Path.join_ne_empty isName_scratchName) (List.prefix_refl _)]
    exact ⟨left, henter⟩
  have hkind : d.tree.kindAt location = some .directory := kindAt_of_enter hroot henter
  obtain ⟨there, hthere, hdirectory⟩ := Option.map_eq_some_iff.mp hkind
  rw [Disk.isDirectory_iff, Disk.kindOf_eq d hbase.no_nul_scratch, hlocate]
  simp [Except.toOption, Disk.spotKind, Disk.nodeAt, hthere, hdirectory]

/-- A scratch directory that stands is not made again. -/
theorem run_makeDirectories_of_made {d : Disk} (hroot : d.tree.kindAt [] = some .directory)
    (hscratch : d.tree.HasScratch base location) :
    (DiskM.makeDirectories true (Path.join base scratchName)).run d = (.ok (), d) := by
  obtain ⟨left, henter⟩ := hbase.enter_scratch hscratch.stands
  rw [pathNames_join isName_scratchName, enter_append] at henter
  cases hfound : enter d.tree linkLimit .root (pathNames base) with
  | error code => simp [hfound, Except.bind] at henter
  | ok found =>
      rw [hfound] at henter
      dsimp only [Except.bind] at henter
      rw [enter_singleton, if_neg (by decide), if_neg (by decide), if_neg (by decide)] at henter
      have hentry : ∃ node, d.entryAt found.1 scratchName = .ok (some node) := by
        rw [Disk.entryAt, if_neg (by decide)]
        cases hlookup : (found.1.entries d.tree).lookup scratchName with
        | none => simp [Place.kindOf, hlookup] at henter
        | some node => exact ⟨node, rfl⟩
      obtain ⟨node, hnode⟩ := hentry
      have hmake : d.makeDirectory (Path.join base scratchName) = .error .fileExists := by
        unfold Disk.makeDirectory
        rw [hbase.tip_scratch hfound]
        dsimp only [bind, Except.bind]
        rw [hnode]
      rw [hbase.run_makeDirectories hfound, hmake]
      dsimp only
      rw [if_pos (hbase.isDirectory_scratch hroot hscratch)]

/-- The scratch directory is there once it has been made. -/
theorem exists_run_makeDirectories {d : Disk} (hplace : d.InPlace base) :
    ∃ d' location, (DiskM.makeDirectories true (Path.join base scratchName)).run d = (.ok (), d') ∧
      d'.tree.HasScratch base location ∧ d'.InPlace base := by
  have hroot := kindAt_root hplace.found
  cases hplace.scratch with
  | @made location hscratch =>
      exact ⟨d, location, hbase.run_makeDirectories_of_made hroot hscratch, hscratch, hplace⟩
  | @missing location hstands hmissing =>
      obtain ⟨left, henter⟩ := hbase.enter_base hstands
      have hvacant : ((⟨location, []⟩ : Place).entries d.tree).lookup scratchName = none := by
        have hkind : (⟨location, []⟩ : Place).kindOf d.tree scratchName = none := by
          rw [Place.kindOf_eq, if_pos rfl]
          exact hmissing
        exact Option.map_eq_none_iff.mp hkind
      have hmake : d.makeDirectory (Path.join base scratchName) =
          .ok { d with tree := d.tree.put location scratchName .empty } := by
        unfold Disk.makeDirectory
        rw [hbase.tip_scratch henter]
        dsimp only [bind, Except.bind]
        rw [Disk.entryAt, if_neg (by decide), hvacant]
        rfl
      have hscratch := hbase.hasScratch_put hroot hstands hmissing
      have hkeeps := @Node.keepsWays_put d.tree location scratchName .empty rfl hmissing
      refine ⟨{ d with tree := d.tree.put location scratchName .empty }, location ++ [scratchName],
        ?_, hscratch, hplace.here, hkeeps _ .directory trivial hplace.found, ?_, .made hscratch⟩
      · rw [hbase.run_makeDirectories henter, hmake]
      · intro other hdirectory name hname
        rw [@Node.kindAt_put d.tree location scratchName .empty rfl hmissing] at hdirectory
        split at hdirectory
        · next hnew =>
            -- the new directory is called after the one above it and the scratch directory
            rw [hnew.1] at hname
            rcases List.mem_append.mp hname with habove | hlast
            · exact hplace.no_nul location hnew.2 name habove
            · rw [List.mem_singleton.mp hlast]
              decide
        · exact hplace.no_nul other hdirectory name hname

end FitsScratch

/-! ## What leaves the scratch directory in place -/

/-- The scratch directory stands as long as the ways are kept. -/
theorem Node.HasScratch.of_keeps {tree tree' : Node} {base : String} {location : Location}
    (hbase : FitsScratch base) (hscratch : tree.HasScratch base location)
    (hkeeps : tree.KeepsWays tree')
    (hfiles : ∀ n, tree'.kindAt (location ++ [scratchFileName n]) = some .file ∨
      tree'.kindAt (location ++ [scratchFileName n]) = none) :
    tree'.HasScratch base location := by
  obtain ⟨left, henter⟩ := hbase.enter_scratch hscratch.stands
  refine ⟨?_, hfiles⟩
  rw [locate_eq_directory_iff hbase.checkPath_scratch,
    hbase.startPlace_of_front (Path.join_ne_empty isName_scratchName) (List.prefix_refl _)]
  exact ⟨left, enter_of_keeps hkeeps henter⟩

namespace Disk.InPlace

variable {base : String} {d d' : Disk}

theorem exists_path (hplace : d.InPlace base) :
    ∃ path, d.currentPath = .ok path ∧ Disk.hasNul path = false := by
  have hpath := Place.path?_eq hplace.here
  exact ⟨_, Disk.currentPath_eq_ok.mpr hpath,
    Place.hasNul_path hplace.here (hplace.no_nul _ hplace.found) hpath⟩

/-- Opening files leaves everything in place. -/
theorem of_opens (hbase : FitsScratch base) (hplace : d.InPlace base) {location : Location}
    (hscratch : d.tree.HasScratch base location) (hopens : d.Opens d') : d'.InPlace base := by
  have hstill : d'.tree.HasScratch base location := by
    refine hscratch.of_keeps hbase hopens.tree.keepsWays fun n => ?_
    rcases hopens.tree (location ++ [scratchFileName n]) with hsame | ⟨-, hfile⟩
    · rw [hsame]
      exact hscratch.files n
    · exact Or.inl hfile
  refine ⟨hopens.current ▸ hplace.here, ?_, fun location hdirectory => ?_, .made hstill⟩
  · rw [hopens.current]
    exact hopens.tree.keepsWays _ .directory trivial hplace.found
  · exact hplace.no_nul location (hopens.tree.keepsWays_back _ .directory trivial hdirectory)

/-- Going back to a directory by its path leaves everything in place. -/
theorem backAt (hplace : d.InPlace base) (saved : String) : (d.backAt saved).InPlace base := by
  have htree := Disk.tree_backAt d saved
  have hcwd : (d.backAt saved).cwd.lost = [] ∧
      d.tree.kindAt (d.backAt saved).cwd.base = some .directory := by
    obtain ⟨path, hpath, -⟩ := hplace.exists_path
    rw [Disk.backAt, hpath]
    dsimp only
    split
    · exact ⟨hplace.here, hplace.found⟩
    · rw [stateAfter_change]
      split
      · exact ⟨hplace.here, hplace.found⟩
      · unfold Disk.changeDirectory
        cases hlocate : d.locate true saved with
        | error code => exact ⟨hplace.here, hplace.found⟩
        | ok spot =>
            cases spot with
            | vacant parent name => exact ⟨hplace.here, hplace.found⟩
            | leaf parent name node => exact ⟨hplace.here, hplace.found⟩
            | directory place =>
                obtain ⟨hcheck, -⟩ := Disk.locate_eq_ok_iff.mp hlocate
                obtain ⟨left, henter⟩ := (locate_eq_directory_iff hcheck).mp hlocate
                have hstart : (startPlace d.cwd saved).lost = [] ∧
                    d.tree.kindAt (startPlace d.cwd saved).base = some .directory := by
                  unfold startPlace
                  split
                  · exact ⟨rfl, kindAt_root hplace.found⟩
                  · exact ⟨hplace.here, hplace.found⟩
                exact ⟨lost_of_enter hstart.1 henter, kindAt_of_enter hstart.2 henter⟩
  rw [← htree] at hcwd
  exact ⟨hcwd.1, hcwd.2, htree ▸ hplace.no_nul, htree ▸ hplace.scratch⟩

/-- Removing a scratch file leaves everything in place. -/
theorem without_scratchFile (hbase : FitsScratch base) (hplace : d.InPlace base) {n : Nat}
    (hn : n < 16 ^ 32) : (d.without [scratchFile base n]).InPlace base := by
  cases hplace.scratch with
  | @made location hscratch =>
      have hremoved := rm_named (hbase.names_scratchFile hn hscratch) (hscratch.files n)
      have hprunes := (fades_rm (scratchFile base n) d).tree
      show (stateAfter (DiskM.rm (scratchFile base n) false) d).InPlace base
      generalize stateAfter (DiskM.rm (scratchFile base n) false) d = d' at hremoved hprunes ⊢
      obtain ⟨-, hcwd, hkeeps⟩ := hremoved
      have hstill : d'.tree.HasScratch base location := by
        refine hscratch.of_keeps hbase hkeeps fun n => ?_
        rcases hprunes (location ++ [scratchFileName n]) with hnone | hsame
        · exact Or.inr hnone
        · rw [hsame]
          exact hscratch.files n
      refine ⟨hcwd ▸ hplace.here, ?_, fun location hdirectory => ?_, .made hstill⟩
      · rw [hcwd]
        exact hkeeps _ .directory trivial hplace.found
      · rcases hprunes location with hnone | hsame
        · rw [hnone] at hdirectory
          cases hdirectory
        · exact hplace.no_nul location (hsame ▸ hdirectory)
  | missing hstands hmissing =>
      have hnothing : ∀ follow, d.kindOf follow (scratchFile base n) = none := by
        intro follow
        rw [Disk.kindOf_eq d (hbase.no_nul_file n), hbase.locate_scratchFile hn hstands hmissing]
        rfl
      have hsame : d.without [scratchFile base n] = d := rm_of_nothing hnothing
      rw [hsame]
      exact hplace

end Disk.InPlace

end BuildRunner
