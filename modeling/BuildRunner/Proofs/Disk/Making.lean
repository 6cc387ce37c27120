import BuildRunner.Proofs.Disk.Aiming

/-!
# Making the missing directories of a path

Directories are made from the first that is missing on, one in the other, up to the location that the
path aims at.  They are new and empty; nothing else is changed, also where one of them cannot be made.
Where something is in the way of the path, no directory is made.
-/

namespace BuildRunner

/-- The failure says that there is an entry already. -/
def Failure.IsTaken (failure : Failure) : Prop :=
  ∃ path target, failure = .system .fileExists path target

namespace DiskM

/-- Makes a directory in one that is there.  With `existOk` it may be there already. -/
def makeHere (existOk : Bool) (path : String) : DiskM Unit := do
  try change path fun d => d.makeDirectory path
  catch failure =>
    if failure.isSystem && existOk && (← get).isDirectory path then pure () else throw failure

variable {existOk : Bool} {path : String} {d d' : Disk} {result : Except Failure Unit}

theorem makeHere_cases (hrun : (makeHere existOk path).run d = (result, d')) :
    (result = .ok () ∧ d.makeDirectory path = .ok d') ∨
      (d' = d ∧ ((result = .ok () ∧ existOk = true ∧ d.isDirectory path = true) ∨
        ∃ failure, result = .error failure ∧
          (failure.IsTaken → d.makeDirectory path = .error .fileExists))) := by
  unfold makeHere at hrun
  rw [run_tryCatch, run_change] at hrun
  cases hnul : Disk.hasNul path with
  | true =>
      rw [hnul, if_pos rfl] at hrun
      cases hrun
      refine Or.inr ⟨rfl, Or.inr ⟨_, rfl, ?_⟩⟩
      rintro ⟨_, _, ⟨⟩⟩
  | false =>
      rw [hnul, if_neg (by decide)] at hrun
      cases hmake : d.makeDirectory path with
      | ok made =>
          rw [hmake] at hrun
          cases hrun
          exact Or.inl ⟨rfl, rfl⟩
      | error code =>
          rw [hmake] at hrun
          dsimp only at hrun
          rw [run_bind, run_get] at hrun
          dsimp only at hrun
          split at hrun
          · next hthere =>
              cases hrun
              simp only [Bool.and_eq_true] at hthere
              exact Or.inr ⟨rfl, Or.inl ⟨rfl, hthere.1.2, hthere.2⟩⟩
          · cases hrun
            refine Or.inr ⟨rfl, Or.inr ⟨_, rfl, ?_⟩⟩
            rintro ⟨_, _, ⟨⟩⟩
            rfl

/-- The directories above are made first where they are missing; that one of them is there already
is no failure. -/
theorem makeDirectoriesFrom_cases {fuel : Nat} {head tail : String}
    (hsplit : splitLast path = (head, tail))
    (hrun : (makeDirectoriesFrom existOk (fuel + 1) path).run d = (result, d')) :
    ((head = "" ∨ tail = "" ∨ d.pathExists head = true) ∧
        (makeHere existOk path).run d = (result, d')) ∨
      (head ≠ "" ∧ tail ≠ "" ∧ d.pathExists head = false ∧
        ∃ first made, (makeDirectoriesFrom existOk fuel head).run d = (first, made) ∧
          ((∃ failure, first = .error failure ∧ ¬failure.IsTaken ∧ result = .error failure ∧
              d' = made) ∨
            ((first = .ok () ∨ ∃ failure, first = .error failure ∧ failure.IsTaken) ∧
              ((tail = "." ∧ result = .ok () ∧ d' = made) ∨
                (makeHere existOk path).run made = (result, d'))))) := by
  unfold makeDirectoriesFrom at hrun
  rw [hsplit] at hrun
  dsimp only at hrun
  rw [run_bind, run_get] at hrun
  dsimp only at hrun
  cases hmissing : !head.isEmpty && !tail.isEmpty && !d.pathExists head with
  | false =>
      rw [hmissing] at hrun
      refine Or.inl ⟨?_, hrun⟩
      by_contra hall
      simp only [not_or, Bool.not_eq_true] at hall
      obtain ⟨hhead, htail, hexists⟩ := hall
      simp [hhead, htail, hexists] at hmissing
  | true =>
      rw [hmissing] at hrun
      simp only [Bool.and_eq_true, Bool.not_eq_true', String.isEmpty_eq_false_iff] at hmissing
      refine Or.inr ⟨hmissing.1.1, hmissing.1.2, hmissing.2, ?_⟩
      have hthen : ∀ {made : Disk},
          (if (true && tail == ".") = true then pure () else makeHere existOk path : DiskM Unit).run
            made = (result, d') →
          (tail = "." ∧ result = .ok () ∧ d' = made) ∨
            (makeHere existOk path).run made = (result, d') := by
        intro made hmade
        split at hmade
        · next hdot =>
            cases hmade
            exact Or.inl ⟨by simpa using hdot, rfl, rfl⟩
        · exact Or.inr hmade
      rw [if_pos rfl, run_bind, run_tryCatch] at hrun
      rcases hfirst : (makeDirectoriesFrom existOk fuel head).run d with ⟨failure | _, made⟩
      · refine ⟨_, made, rfl, ?_⟩
        rw [hfirst] at hrun
        by_cases htaken : failure.IsTaken
        · refine Or.inr ⟨Or.inr ⟨failure, rfl, htaken⟩, ?_⟩
          obtain ⟨taken, target, rfl⟩ := htaken
          exact hthen hrun
        · refine Or.inl ⟨failure, rfl, htaken, ?_⟩
          dsimp only at hrun
          split at hrun
          · next heq =>
              split at heq
              · exact absurd ⟨_, _, rfl⟩ htaken
              · cases heq
          · next heq =>
              split at heq
              · cases heq
              · cases heq
                cases hrun
                exact ⟨rfl, rfl⟩
      · refine ⟨_, made, rfl, Or.inr ⟨Or.inl rfl, ?_⟩⟩
        rw [hfirst] at hrun
        exact hthen hrun

/-- What holds of making one directory by the path or by a front of it, holds of making all that are
missing. -/
theorem respects_makeDirectoriesFrom {R : Disk → Disk → Prop} (hR : IsFrame R) (existOk : Bool)
    (fuel : Nat) {path : String}
    (hmake : ∀ front d d', IsFront front path → Disk.hasNul front = false →
      d.makeDirectory front = .ok d' → R d d') :
    Respects R (makeDirectoriesFrom existOk fuel path) := by
  induction fuel generalizing path with
  | zero => exact respects_pure hR _
  | succ fuel ih =>
      have hhere : Respects R (makeHere existOk path) := by
        refine respects_tryCatch hR (respects_change hR path fun d d' hnul =>
          hmake path d d' (.refl path) hnul) fun failure => ?_
        refine respects_bind hR (respects_get hR) fun d => ?_
        split
        · exact respects_pure hR _
        · exact respects_throw hR _
      rcases hsplit : splitLast path with ⟨head, tail⟩
      intro d
      rcases makeDirectoriesFrom_cases hsplit (run_eq _ d) with ⟨-, hrun⟩ | ⟨hhead, htail, -, hrest⟩
      · exact hhere.of_run hrun
      · obtain ⟨first, made, hfirst, hthen⟩ := hrest
        have hfront := isFront_splitLast hsplit hhead htail
        have habove : R d made :=
          (ih fun front d d' hbelow => hmake front d d' (hbelow.trans hfront)).of_run hfirst
        rcases hthen with ⟨_, _, _, _, hsame⟩ | ⟨-, ⟨-, -, hsame⟩ | hrun⟩
        · rwa [hsame]
        · rwa [hsame]
        · exact hR.trans habove (hhere.of_run hrun)

theorem respects_makeDirectories {R : Disk → Disk → Prop} (hR : IsFrame R) (existOk : Bool)
    {path : String}
    (hmake : ∀ front d d', IsFront front path → Disk.hasNul front = false →
      d.makeDirectory front = .ok d' → R d d') : Respects R (makeDirectories existOk path) :=
  respects_makeDirectoriesFrom hR existOk _ hmake

end DiskM

/-! ## Paths with something in the way -/

namespace Disk

/-- The names of the path do not lead into a directory. -/
def NotEntered (d : Disk) (path : String) : Prop :=
  ∀ found, enter d.tree linkLimit (startPlace d.cwd path) (pathNames path) ≠ .ok found

/-- The names before the last one do not lead into a directory. -/
def Shut (d : Disk) (path : String) : Prop :=
  ∀ found, enter d.tree linkLimit (startPlace d.cwd path) (pathNames path).dropLast ≠ .ok found

variable {d d' : Disk} {path head tail : String}

theorem NotEntered.shut (hnot : d.NotEntered head) (hhead : head ≠ "")
    (hfront : head.toList <+: path.toList) (hnames : pathNames path = pathNames head ++ [tail]) :
    d.Shut path := by
  intro found
  rw [startPlace_of_front hhead hfront, hnames, List.dropLast_concat]
  exact hnot found

theorem Shut.notEntered (hshut : d.Shut path) : d.NotEntered path := by
  intro found henter
  unfold Shut at hshut
  rcases List.eq_nil_or_concat (pathNames path) with hnil | ⟨front, last, hnames⟩
  · rw [hnil] at hshut henter
    exact hshut found henter
  · rw [List.concat_eq_append] at hnames
    rw [hnames, enter_append] at henter
    rw [hnames, List.dropLast_concat] at hshut
    cases hfront : enter d.tree linkLimit (startPlace d.cwd path) front with
    | ok above => exact hshut above hfront
    | error code => simp [hfront, Except.bind] at henter

/-- The names of a path that leads nowhere, and not because it is too long, are not entered. -/
theorem notEntered_of_pathExists (hnul : hasNul path = false) (hcheck : checkPath path = .ok ())
    (hexists : d.pathExists path = false) : d.NotEntered path := by
  rintro ⟨place, left⟩ henter
  have hlocate : d.locate true path = .ok (.directory place) :=
    (locate_eq_directory_iff hcheck).mpr ⟨left, henter⟩
  have hstatus : d.status true path = .ok (place, d.nodeAt place) :=
    status_eq_ok_iff.mpr (Or.inl ⟨hlocate, rfl⟩)
  simp [pathExists, node?, hnul, hstatus, Except.toOption] at hexists

theorem NoRoom.of_front (hhead : head ≠ "") (hfront : head.toList <+: path.toList)
    {rest : List String} (hnames : pathNames path = pathNames head ++ rest)
    (hroom : d.NoRoom path) : d.NoRoom head := by
  intro front name parent left hinit henter
  rw [← startPlace_of_front hhead hfront] at henter
  exact hroom front name parent left (hnames ▸ hinit.trans (List.prefix_append _ _)) henter

theorem NoRoom.makeDirectory_ne_ok (hroom : d.NoRoom path) : d.makeDirectory path ≠ .ok d' := by
  intro hmake
  obtain ⟨⟨base, lost⟩, name, slash, htip, rfl, -, hfree, -⟩ := makeDirectory_inv hmake
  obtain ⟨-, hlast, left, henter⟩ := tip_eq_ok_iff.mp htip
  obtain ⟨hname, hdot, hdotdot, -⟩ := lastTip_eq_name_iff.mp hlast
  have hwhole := List.dropLast_append_getLast? name hname
  exact hroom _ name base left ⟨[], by rw [List.append_nil, hwhole]⟩ henter hdot hdotdot hfree

theorem pathExists_of_isDirectory (hdirectory : d.isDirectory path = true) :
    d.pathExists path = true := by
  unfold isDirectory at hdirectory
  unfold pathExists
  cases hnode : d.node? true path with
  | none => simp [hnode] at hdirectory
  | some node => rfl

end Disk

/-! ## Requests that find an entry -/

theorem descend_ne_fileExists (tree : Node) (place : Place) (names : List String) :
    descend tree place names ≠ .refused .fileExists := by
  induction names generalizing place with
  | nil => simp [descend]
  | cons name rest ih =>
      rw [descend_cons]
      split_ifs
      · exact ih place
      · exact ih place.up
      · simp
      · cases place.kindOf tree name with
        | none => simp
        | some kind =>
            cases kind with
            | directory => exact ih (place.down name)
            | _ => simp

theorem enter_ne_fileExists (tree : Node) (links : Nat) (place : Place) (names : List String) :
    enter tree links place names ≠ .error .fileExists := by
  induction links generalizing place names with
  | zero =>
      rw [enter]
      have hdescend := descend_ne_fileExists tree place names
      cases hend : descend tree place names with
      | arrived there => simp
      | refused code => simpa [hend] using hdescend
      | link parent target rest => simp
  | succ links ih =>
      rw [enter]
      have hdescend := descend_ne_fileExists tree place names
      cases hend : descend tree place names with
      | arrived there => simp
      | refused code => simpa [hend] using hdescend
      | link parent target rest => exact ih _ _

namespace Disk

variable {d d' : Disk} {path head tail : String}

theorem tip_ne_fileExists : d.tip path ≠ .error .fileExists := by
  have henter := enter_ne_fileExists d.tree linkLimit (startPlace d.cwd path)
    (pathNames path).dropLast
  rw [tip_eq_lastTip]
  cases hcheck : checkPath path with
  | error code =>
      unfold checkPath at hcheck
      split_ifs at hcheck
      · cases hcheck
        simp [Except.bind]
      · cases hcheck
        simp [Except.bind]
  | ok _ =>
      cases hfound : enter d.tree linkLimit (startPlace d.cwd path) (pathNames path).dropLast with
      | error code => simpa [Except.bind, hfound] using henter
      | ok found => simp [Except.bind]

/-- There is an entry of the name, or the path does not end in a name. -/
theorem makeDirectory_taken (hmake : d.makeDirectory path = .error .fileExists) :
    ∃ parent tip, d.tip path = .ok (parent, tip) ∧ ∀ name slash, tip = .name name slash →
      name.utf8ByteSize ≤ greatestName ∧ ∃ kind, parent.kindOf d.tree name = some kind := by
  unfold makeDirectory at hmake
  cases htip : d.tip path with
  | error code =>
      rw [htip] at hmake
      cases hmake
      exact absurd htip tip_ne_fileExists
  | ok found =>
      obtain ⟨parent, tip⟩ := found
      refine ⟨parent, tip, rfl, ?_⟩
      rintro name slash rfl
      rw [htip] at hmake
      simp only [bind, Except.bind] at hmake
      cases hentry : d.entryAt parent name with
      | error code =>
          rw [hentry] at hmake
          unfold entryAt at hentry
          split at hentry
          · cases hentry
            cases hmake
          · cases hentry
      | ok entry =>
          obtain ⟨hshort, hlookup⟩ := lookup_of_entryAt hentry
          cases entry with
          | some node => exact ⟨hshort, node.kind, by rw [Place.kindOf, hlookup]; rfl⟩
          | none =>
              simp only [hentry, create] at hmake
              split at hmake
              · cases hmake
              · cases hmake

theorem checkPath_of_taken (hmake : d.makeDirectory path = .error .fileExists) :
    checkPath path = .ok () := by
  obtain ⟨parent, tip, htip, -⟩ := makeDirectory_taken hmake
  exact (tip_eq_ok_iff.mp htip).1

end Disk

/-! ## No directories are made -/

section

variable {d d' : Disk} {path : String} {existOk : Bool} {result : Except Failure Unit}

/-- Where something is in the way nothing is made, and if that is no failure, the path leads to a
directory or nowhere. -/
theorem makeDirectoriesFrom_of_noRoom {fuel : Nat} (hnul : Disk.hasNul path = false)
    (hroom : d.NoRoom path) (hfuel : path.length < fuel)
    (hrun : (DiskM.makeDirectoriesFrom existOk fuel path).run d = (result, d')) :
    d' = d ∧
      (result = .ok () → (existOk = true ∧ d.isDirectory path = true) ∨ d.Shut path) ∧
        ∀ failure, result = .error failure → failure.IsTaken → checkPath path = .ok () := by
  induction fuel generalizing path d' result with
  | zero => exact absurd hfuel (Nat.not_lt_zero _)
  | succ fuel ih =>
      have hhere : ∀ {result d'}, (DiskM.makeHere existOk path).run d = (result, d') →
          d' = d ∧
            (result = .ok () → (existOk = true ∧ d.isDirectory path = true) ∨ d.Shut path) ∧
              ∀ failure, result = .error failure → failure.IsTaken → checkPath path = .ok () := by
        intro result d' hhere
        rcases DiskM.makeHere_cases hhere with
          ⟨-, hmake⟩ | ⟨rfl, ⟨rfl, hthere⟩ | ⟨failure, rfl, htaken⟩⟩
        · exact absurd hmake hroom.makeDirectory_ne_ok
        · refine ⟨rfl, fun _ => Or.inl hthere, ?_⟩
          rintro failure ⟨⟩
        · refine ⟨rfl, ?_, ?_⟩
          · rintro ⟨⟩
          · rintro _ ⟨⟩ hfailure
            exact Disk.checkPath_of_taken (htaken hfailure)
      rcases hsplit : DiskM.splitLast path with ⟨head, tail⟩
      rcases DiskM.makeDirectoriesFrom_cases hsplit hrun with
        ⟨-, hmade⟩ | ⟨hhead, htail, hmissing, first, made, habove, hthen⟩
      · exact hhere hmade
      · have hfront : head.toList <+: path.toList := by
          simpa only [hsplit] using prefix_splitLast path
        have hnames := pathNames_of_splitLast hsplit htail
        have hlength := length_splitLast_lt hsplit htail
        have hheadNul := hasNul_of_front hfront hnul
        obtain ⟨rfl, hok, htaken⟩ :=
          ih hheadNul (hroom.of_front hhead hfront hnames) (by omega) habove
        rcases hthen with ⟨failure, -, hother, rfl, rfl⟩ | ⟨hfirst, hthen⟩
        · refine ⟨rfl, ?_, ?_⟩
          · rintro ⟨⟩
          · rintro _ ⟨⟩ hfailure
            exact absurd hfailure hother
        · rcases hthen with ⟨-, rfl, rfl⟩ | hmade
          · have hnot : d'.NotEntered head → d'.Shut path := fun hnot =>
              hnot.shut hhead hfront hnames
            refine ⟨rfl, fun _ => Or.inr (hnot ?_), ?_⟩
            · rcases hfirst with rfl | ⟨failure, rfl, hfailure⟩
              · rcases hok rfl with ⟨-, hdirectory⟩ | hshut
                · simp [Disk.pathExists_of_isDirectory hdirectory] at hmissing
                · exact hshut.notEntered
              · exact Disk.notEntered_of_pathExists hheadNul (htaken failure rfl hfailure) hmissing
            · rintro failure ⟨⟩
          · exact hhere hmade

end

/-! ## The directories that are made -/

namespace Node

/-- The entry at a location is by itself as it was, or an empty directory where nothing was. -/
def SameOrMade (tree tree' : Node) (location : Location) : Prop :=
  tree'.ownAt location = tree.ownAt location ∨
    tree.kindAt location = none ∧ tree'.ownAt location = some .empty

theorem SameOrMade.trans {t u v : Node} {location : Location} (h : t.SameOrMade u location)
    (h' : u.SameOrMade v location) : t.SameOrMade v location := by
  rcases h' with hsame' | ⟨hnone, hnew⟩
  · rcases h with hsame | ⟨hnone, hnew⟩
    · exact Or.inl (hsame'.trans hsame)
    · exact Or.inr ⟨hnone, hsame'.trans hnew⟩
  · rcases h with hsame | ⟨hbefore, hthen⟩
    · rw [kindAt_eq_ownAt, hsame, ← kindAt_eq_ownAt] at hnone
      exact Or.inr ⟨hnone, hnew⟩
    · rw [kindAt_eq_ownAt, hthen] at hnone
      cases hnone

theorem SameOrMade.kindAt {tree tree' : Node} {location : Location}
    (h : tree.SameOrMade tree' location) :
    tree'.kindAt location = tree.kindAt location ∨
      tree.kindAt location = none ∧ tree'.kindAt location = some .directory := by
  rw [kindAt_eq_ownAt, kindAt_eq_ownAt _ location]
  rcases h with hsame | ⟨hnone, hnew⟩
  · exact Or.inl (by rw [hsame])
  · rw [kindAt_eq_ownAt] at hnone
    exact Or.inr ⟨hnone, by rw [hnew]; rfl⟩

end Node

/-- Missing directories on the way to a location have been made, and nothing else has happened. -/
structure Disk.MakesWay (base : Location) (d d' : Disk) : Prop where
  current : d'.cwd = d.cwd
  apart : ∀ {location}, ¬location <+: base → d'.tree.get? location = d.tree.get? location
  above : ∀ {location}, location <+: base → d.tree.SameOrMade d'.tree location

theorem isFrame_makesWay (base : Location) : IsFrame (Disk.MakesWay base) where
  refl _ := ⟨rfl, fun _ => rfl, fun _ => Or.inl rfl⟩
  trans h h' := ⟨h'.current.trans h.current, fun hother => (h'.apart hother).trans (h.apart hother),
    fun hway => (h.above hway).trans (h'.above hway)⟩

namespace Disk

variable {d d' : Disk} {path head tail : String} {base above : Location}

namespace MakesWay

theorem kindAt (hway : d.MakesWay base d') (location : Location) :
    d'.tree.kindAt location = d.tree.kindAt location ∨
      d.tree.kindAt location = none ∧ d'.tree.kindAt location = some .directory := by
  by_cases hbase : location <+: base
  · exact (hway.above hbase).kindAt
  · exact Or.inl (by rw [Node.kindAt, hway.apart hbase, Node.kindAt])

theorem keepsKinds (hway : d.MakesWay base d') : d.tree.KeepsKinds d'.tree := by
  intro location kind hkind
  rcases hway.kindAt location with hsame | ⟨hnone, -⟩
  · rw [hsame, hkind]
  · simp [hnone] at hkind

theorem mono (hway : d.MakesWay above d') (habove : above <+: base) : d.MakesWay base d' where
  current := hway.current
  apart := fun hother => hway.apart fun hinit => hother (hinit.trans habove)
  above := by
    intro location _
    by_cases hinit : location <+: above
    · exact hway.above hinit
    · exact Or.inl (by rw [Node.ownAt, hway.apart hinit, Node.ownAt])

end MakesWay

theorem Aims.of_makesWay (haims : d.Aims path base) (hway : d.MakesWay above d') :
    d'.Aims path base := by
  obtain ⟨hne, front, rest, start, left, hnames, hfront, hclear, hbase⟩ := haims
  refine ⟨hne, front, rest, start, left, hnames, ?_, ⟨hclear.downward, fun other hother => ?_⟩,
    hbase⟩
  · rw [hway.current]
    exact enter_of_keeps hway.keepsKinds.keepsWays hfront
  · rcases hway.kindAt (start.along other) with hsame | ⟨-, hnew⟩
    · rw [hsame]
      exact hclear.clear other hother
    · exact Or.inr hnew

theorem makesWay_put {parent : Location} {name : String}
    (hfree : d.tree.kindAt (parent ++ [name]) = none) :
    d.MakesWay (parent ++ [name]) { d with tree := d.tree.put parent name .empty } := by
  have hempty : Node.empty.entries = [] := rfl
  refine ⟨rfl, ?_, ?_⟩
  · intro location hother
    rw [Node.get?_put _ _ _ hempty hfree fun hinit =>
      hother (hinit.trans (List.prefix_append _ _)), if_neg]
    rintro ⟨rfl, -⟩
    exact hother (List.prefix_refl _)
  · intro location _
    rw [Node.SameOrMade, Node.ownAt_put _ _ _ hempty hfree]
    split
    · next hnew => exact Or.inr ⟨hnew.1 ▸ hfree, rfl⟩
    · exact Or.inl rfl

/-- A directory that is made at a path is entered by it.  Nothing was there, and nothing else is
made. -/
theorem enters_of_makeDirectory (hcwd : d.tree.kindAt d.cwd.base = some .directory)
    (hmake : d.makeDirectory path = .ok d') :
    ∃ location, d.tree.kindAt location = none ∧ d.MakesWay location d' ∧
      d'.Enters path location := by
  obtain ⟨⟨parent, lost⟩, name, slash, htip, rfl, hshort, hfree, rfl⟩ := makeDirectory_inv hmake
  obtain ⟨hcheck, hlast, left, henter⟩ := tip_eq_ok_iff.mp htip
  obtain ⟨hname, hdot, hdotdot, -⟩ := lastTip_eq_name_iff.mp hlast
  have hparent := kindAt_of_tip hcwd htip
  have hnames : (pathNames path).dropLast ++ [name] = pathNames path :=
    List.dropLast_append_getLast? name hname
  dsimp only at hfree hparent
  refine ⟨parent ++ [name], hfree, makesWay_put hfree, ne_empty_of_checkPath hcheck, left, ?_⟩
  have hkind : (⟨parent, []⟩ : Place).kindOf (d.tree.put parent name .empty) name =
      some .directory := by
    rw [Place.kindOf_eq, if_pos rfl, Node.kindAt_put _ _ _ rfl hfree, if_pos ⟨rfl, hparent⟩]
    rfl
  rw [← hnames, enter_append, enter_of_keeps (Node.keepsKinds_put rfl hfree).keepsWays henter]
  simp only [Except.bind]
  rw [enter_singleton, if_neg hdot, if_neg hdotdot, if_neg (Nat.not_lt.mpr hshort), hkind]
  rfl

namespace Aims

/-- A path leads where it aims. -/
theorem enters_of_enter (haims : d.Aims path base) {found : Place × Nat}
    (henter : enter d.tree linkLimit (startPlace d.cwd path) (pathNames path) = .ok found) :
    d.Enters path base := by
  obtain ⟨hne, front, rest, start, before, hpath, hfront, hclear, rfl⟩ := haims
  obtain ⟨place, left⟩ := found
  rw [hpath, enter_append, hfront] at henter
  have hplace := hclear.place_of_enter henter
  subst hplace
  refine ⟨hne, left, ?_⟩
  rw [hpath, enter_append, hfront]
  exact henter

theorem enters_of_isDirectory (haims : d.Aims path base) (hdirectory : d.isDirectory path = true) :
    d.Enters path base := by
  obtain ⟨place, hlocate⟩ := exists_place_of_isDirectory hdirectory
  obtain ⟨left, henter⟩ := (locate_eq_directory_iff (locate_eq_ok_iff.mp hlocate).1).mp hlocate
  exact haims.enters_of_enter henter

/-- A path enters the directory that it aims at. -/
theorem enters (haims : d.Aims path base) (hproper : d.tree.Proper)
    (hdirectory : d.tree.kindAt base = some .directory) : d.Enters path base := by
  obtain ⟨hne, front, rest, start, left, hpath, hfront, hclear, rfl⟩ := haims
  refine ⟨hne, left, ?_⟩
  rw [hpath, enter_append, hfront]
  exact Node.IsClear.enter_of_directory hclear.downward hdirectory
    (fun name hname => (hproper.accepted _ _ hdirectory name hname).short) left

theorem kindAt (haims : d.Aims path base) :
    d.tree.kindAt base = none ∨ d.tree.kindAt base = some .directory := by
  obtain ⟨-, front, rest, start, left, -, -, hclear, rfl⟩ := haims
  exact hclear.clear rest (List.prefix_refl _)

/-- An entry that is there already is a directory, since no other one is in the way. -/
theorem enters_of_taken (haims : d.Aims path base)
    (hmake : d.makeDirectory path = .error .fileExists) : d.Enters path base := by
  obtain ⟨parent, tip, htip, htaken⟩ := makeDirectory_taken hmake
  obtain ⟨-, hlast, left, henter⟩ := tip_eq_ok_iff.mp htip
  have hwhole := haims
  obtain ⟨hne, front, rest, start, before, hpath, hfront, hclear, rfl⟩ := haims
  rcases List.eq_nil_or_concat rest with rfl | ⟨init, last, rfl⟩
  · rw [List.append_nil] at hpath
    rw [← hpath] at hfront
    exact hwhole.enters_of_enter hfront
  · rw [List.concat_eq_append, ← List.append_assoc] at hpath
    rw [List.concat_eq_append] at hclear
    have hname : (pathNames path).getLast? = some last := by rw [hpath, List.getLast?_concat]
    have hdotdot : last ≠ ".." := by
      rintro rfl
      exact hclear.downward (by simp)
    rw [hpath, List.dropLast_concat] at henter
    have habove : parent = ⟨start.along init, []⟩ := by
      rw [enter_append, hfront] at henter
      exact hclear.of_front.place_of_enter henter
    have hlastEnter : ∃ found, enter d.tree left parent [last] = .ok found := by
      rw [enter_singleton]
      by_cases hdot : last = "."
      · exact ⟨_, if_pos hdot⟩
      · rw [lastTip_eq_name_iff.mpr ⟨hname, hdot, hdotdot, rfl⟩] at hlast
        obtain ⟨hshort, kind, hkind⟩ := htaken last _ hlast.symm
        have hthere := hclear.clear _ (List.prefix_refl _)
        rw [Location.along_append, Location.along_cons, Location.along_nil, Location.step,
          if_neg hdot, if_neg hdotdot] at hthere
        have hdirectory : parent.kindOf d.tree last = some .directory := by
          rw [habove, Place.kindOf_eq, if_pos rfl] at hkind ⊢
          exact hthere.resolve_left (by simp [hkind])
        rw [if_neg hdot, if_neg hdotdot, if_neg (Nat.not_lt.mpr hshort), hdirectory]
        exact ⟨_, rfl⟩
    obtain ⟨found, hfound⟩ := hlastEnter
    have hway : enter d.tree linkLimit (startPlace d.cwd path) (pathNames path) = .ok found := by
      rw [hpath, enter_append, henter]
      exact hfound
    exact hwhole.enters_of_enter hway

end Aims

/-- A directory that is made at a path is made where the path aims, and nothing was there. -/
theorem makesWay_of_makeDirectory (hcwd : d.tree.kindAt d.cwd.base = some .directory)
    (haims : d.Aims path base) (hmake : d.makeDirectory path = .ok d') :
    d.MakesWay base d' ∧ d.tree.kindAt base = none ∧ d'.Enters path base := by
  obtain ⟨location, hfree, hway, henters⟩ := enters_of_makeDirectory hcwd hmake
  obtain ⟨left, henter⟩ := henters.way
  obtain rfl := ((haims.of_makesWay hway).enters_of_enter henter).unique henters
  exact ⟨hway, hfree, henters⟩

end Disk

/-- A path that is entered has no room for further directories. -/
theorem Disk.noRoom_of_enter {d : Disk} {path : String} {found : Place × Nat}
    (henter : enter d.tree linkLimit (startPlace d.cwd path) (pathNames path) = .ok found) :
    d.NoRoom path :=
  fun _ _ _ _ hinit hfront hdot hdotdot =>
    kindAt_ne_none_of_enter henter hinit hfront hdot hdotdot

/-- What is left where directories were to be made on the way to where a path aims. -/
structure Disk.WayMade (d : Disk) (path : String) (base : Location) (existOk : Bool)
    (result : Except Failure Unit) (d' : Disk) : Prop where
  way : d.MakesWay base d'
  enters : (result = .ok () ∨ ∃ failure, result = .error failure ∧ failure.IsTaken) →
    d'.Enters path base
  fresh : result = .ok () → existOk = false → d.tree.kindAt base = none
  checked : ∀ failure, result = .error failure → failure.IsTaken → checkPath path = .ok ()

section

variable {d made d' : Disk} {path : String} {base : Location} {existOk : Bool}
  {result : Except Failure Unit} (hcwd : d.tree.kindAt d.cwd.base = some .directory)
  (haims : d.Aims path base)

include hcwd haims

theorem wayMade_of_makeHere (hway : d.MakesWay base made)
    (hrun : (DiskM.makeHere existOk path).run made = (result, d')) :
    d.WayMade path base existOk result d' := by
  have haims' := haims.of_makesWay hway
  rcases DiskM.makeHere_cases hrun with
    ⟨rfl, hmake⟩ | ⟨rfl, ⟨rfl, rfl, hthere⟩ | ⟨failure, rfl, htaken⟩⟩
  · have hcwd' : made.tree.kindAt made.cwd.base = some .directory := by
      rw [hway.current]
      exact hway.keepsKinds _ _ hcwd
    obtain ⟨hway', hnone, henters⟩ := Disk.makesWay_of_makeDirectory hcwd' haims' hmake
    refine ⟨(isFrame_makesWay base).trans hway hway', fun _ => henters, fun _ _ => ?_, ?_⟩
    · rcases hway.kindAt base with hsame | ⟨hbefore, -⟩
      · rw [← hsame, hnone]
      · exact hbefore
    · rintro failure ⟨⟩
  · refine ⟨hway, fun _ => haims'.enters_of_isDirectory hthere, ?_, ?_⟩
    · rintro - ⟨⟩
    · rintro failure ⟨⟩
  · refine ⟨hway, fun htried => ?_, ?_, ?_⟩
    · rcases htried with hok | ⟨other, hother, hfailure⟩
      · cases hok
      · cases hother
        exact haims'.enters_of_taken (htaken hfailure)
    · rintro ⟨⟩
    · rintro _ ⟨⟩ hfailure
      exact Disk.checkPath_of_taken (htaken hfailure)

/-- Directories are made only on the way to where a path aims.  Unless this fails the path leads
there, and with `existOk` off there was nothing before. -/
theorem wayMade_of_makeDirectoriesFrom {fuel : Nat} (hproper : d.tree.Proper)
    (hnul : Disk.hasNul path = false) (hfuel : path.length < fuel)
    (hrun : (DiskM.makeDirectoriesFrom existOk fuel path).run d = (result, d')) :
    d.WayMade path base existOk result d' := by
  induction fuel generalizing path base d' result with
  | zero => exact absurd hfuel (Nat.not_lt_zero _)
  | succ fuel ih =>
      have hwhole := haims
      obtain ⟨hne, front, rest, start, before, hpath, henter, hclear, rfl⟩ := haims
      rcases List.eq_nil_or_concat rest with rfl | ⟨init, last, rfl⟩
      · -- the whole path is entered, so that nothing is to be made
        rw [List.append_nil] at hpath
        rw [← hpath] at henter
        obtain ⟨rfl, hok, hchecked⟩ :=
          makeDirectoriesFrom_of_noRoom hnul (Disk.noRoom_of_enter henter) hfuel hrun
        refine ⟨(isFrame_makesWay _).refl d', fun _ => hwhole.enters_of_enter henter,
          fun hresult hexistOk => ?_, hchecked⟩
        rcases hok hresult with ⟨htrue, -⟩ | hshut
        · simp [hexistOk] at htrue
        · exact absurd henter (hshut.notEntered _)
      rcases hsplit : DiskM.splitLast path with ⟨head, tail⟩
      rcases DiskM.makeDirectoriesFrom_cases hsplit hrun with
        ⟨-, hmade⟩ | ⟨hhead, htail, hmissing, first, made, habove, hthen⟩
      · exact wayMade_of_makeHere hcwd hwhole ((isFrame_makesWay _).refl d) hmade
      have hfront : head.toList <+: path.toList := by
        simpa only [hsplit] using prefix_splitLast path
      have hnames := pathNames_of_splitLast hsplit htail
      have hlength := length_splitLast_lt hsplit htail
      have hheadNul := hasNul_of_front hfront hnul
      rw [List.concat_eq_append] at hpath hclear hwhole ⊢
      have hparts : pathNames head = front ++ init ∧ tail = last := by
        rw [hnames, ← List.append_assoc] at hpath
        obtain ⟨hinit, hlast⟩ := List.append_inj' hpath rfl
        exact ⟨hinit, by simpa using hlast⟩
      obtain ⟨hheadNames, rfl⟩ := hparts
      have hheadAims : d.Aims head (start.along init) :=
        ⟨hhead, front, init, start, before, hheadNames,
          by rw [← startPlace_of_front hhead hfront]; exact henter, hclear.of_front, rfl⟩
      have hbelow : start.along init <+: start.along (init ++ [tail]) := by
        rw [Location.along_append]
        refine Location.prefix_along fun hmem => hclear.downward (List.mem_append_right _ hmem)
      obtain ⟨hway, henters, hfresh, hchecked⟩ := ih hheadAims hheadNul (by omega) habove
      rcases hthen with ⟨failure, -, hother, rfl, rfl⟩ | ⟨hfirst, ⟨rfl, rfl, rfl⟩ | hmade⟩
      · refine ⟨hway.mono hbelow, fun htried => ?_, ?_, ?_⟩
        · rcases htried with hok | ⟨failure, hsame, hfailure⟩
          · cases hok
          · cases hsame
            exact absurd hfailure hother
        · rintro ⟨⟩
        · rintro _ ⟨⟩ hfailure
          exact absurd hfailure hother
      · -- the path ends in a dot, so that it aims at what was made for the part before it
        have hsame : start.along (init ++ ["."]) = start.along init := by
          rw [Location.along_append, Location.along_cons, Location.along_nil, Location.step,
            if_pos rfl]
        rw [hsame]
        refine ⟨hway, fun _ => ?_, fun _ hexistOk => ?_, ?_⟩
        · obtain ⟨left, hentered⟩ := (henters hfirst).way
          refine ⟨hne, left, ?_⟩
          rw [startPlace_of_front hhead hfront, hnames, enter_append, hentered]
          simp only [Except.bind]
          rw [enter_singleton, if_pos rfl]
        · rcases hfirst with hok | ⟨failure, hfailed, hfailure⟩
          · exact hfresh hok hexistOk
          · refine hheadAims.kindAt.resolve_right fun hdirectory => ?_
            obtain ⟨left, hentered⟩ := (hheadAims.enters hproper hdirectory).way
            exact Disk.notEntered_of_pathExists hheadNul (hchecked failure hfailed hfailure) hmissing _
              hentered
        · rintro failure ⟨⟩
      · exact wayMade_of_makeHere hcwd hwhole (hway.mono hbelow) hmade

end

theorem wayMade_of_makeDirectories {d d' : Disk} {path : String} {base : Location}
    {existOk : Bool} {result : Except Failure Unit} (hproper : d.tree.Proper)
    (hcwd : d.tree.kindAt d.cwd.base = some .directory) (hnul : Disk.hasNul path = false)
    (haims : d.Aims path base)
    (hrun : (DiskM.makeDirectories existOk path).run d = (result, d')) :
    d.WayMade path base existOk result d' :=
  wayMade_of_makeDirectoriesFrom hcwd haims hproper hnul (Nat.lt_succ_self _) hrun

/-! ## Directories that stand -/

namespace DiskM

variable {d : Disk} {path : String}

/-- The names of a path to a directory can be entered. -/
theorem exists_enter_of_isDirectory (hdirectory : d.isDirectory path = true) :
    ∃ found, enter d.tree linkLimit (startPlace d.cwd path) (pathNames path) = .ok found := by
  obtain ⟨place, hlocate⟩ := Disk.exists_place_of_isDirectory hdirectory
  have hcheck := (Disk.locate_eq_ok_iff.mp hlocate).1
  obtain ⟨left, henter⟩ := (locate_eq_directory_iff hcheck).mp hlocate
  exact ⟨_, henter⟩

theorem run_makeHere_of_isDirectory (hdirectory : d.isDirectory path = true) :
    (makeHere true path).run d = (.ok (), d) := by
  obtain ⟨found, henter⟩ := exists_enter_of_isDirectory hdirectory
  have hnot : ∀ d', d.makeDirectory path ≠ .ok d' := fun _ =>
    (Disk.noRoom_of_enter henter).makeDirectory_ne_ok
  unfold makeHere
  rw [run_tryCatch, run_change, Disk.hasNul_of_isDirectory hdirectory, if_neg (by decide)]
  cases hmake : d.makeDirectory path with
  | ok d' => exact absurd hmake (hnot d')
  | error code =>
      dsimp only
      rw [run_bind, run_get]
      dsimp only
      rw [hdirectory]
      rfl

/-- A directory that stands is not made again, however its path is written. -/
theorem run_makeDirectories_of_isDirectory (hdirectory : d.isDirectory path = true) :
    (makeDirectories true path).run d = (.ok (), d) := by
  obtain ⟨place, hlocate⟩ := Disk.exists_place_of_isDirectory hdirectory
  obtain ⟨⟨there, left⟩, henter⟩ := exists_enter_of_isDirectory hdirectory
  have hcheck := (Disk.locate_eq_ok_iff.mp hlocate).1
  have hnul := Disk.hasNul_of_isDirectory hdirectory
  rcases hsplit : splitLast path with ⟨head, tail⟩
  rcases hrun : (makeDirectories true path).run d with ⟨result, d'⟩
  rcases makeDirectoriesFrom_cases hsplit hrun with
    ⟨-, hhere⟩ | ⟨hhead, htail, hmissing, -⟩
  · rw [← hhere]
    exact run_makeHere_of_isDirectory hdirectory
  · -- the directory above stands as well, since the path leads through it
    have hfront : head.toList <+: path.toList := by
      simpa only [hsplit] using prefix_splitLast path
    have hshort : head.utf8ByteSize < pathLimit := by
      by_contra hlong
      have hlonger := (Nat.not_lt.mp hlong).trans <| le_utf8ByteSize_of_prefix hfront
      simp [checkPath_of_long hlonger] at hcheck
    have hnot := Disk.notEntered_of_pathExists (hasNul_of_front hfront hnul)
      (checkPath_of_short hhead hshort) hmissing
    rw [pathNames_of_splitLast hsplit htail, enter_append,
      startPlace_of_front hhead hfront] at henter
    cases habove : enter d.tree linkLimit (startPlace d.cwd head) (pathNames head) with
    | error code => simp [habove, Except.bind] at henter
    | ok above => exact absurd habove (hnot above)

end DiskM

end BuildRunner
