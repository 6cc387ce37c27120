import BuildRunner.Files
import BuildRunner.Proofs.Disk.Ways
import BuildRunner.Proofs.Machine.Frames

/-!
# Removing what a path names

`rm` takes entries out of the tree and adds none.  The current directory stays where it is unless it
is among what was removed.  Whatever the path named before, afterwards it names neither a file nor a
link.
-/

namespace BuildRunner

/-! ## Requests -/

theorem run_ask {α : Type} (path : String) (question : Disk → Except Errno α) (d : Disk) :
    (DiskM.ask path question).run d =
      (if Disk.hasNul path then .error .nullByte
        else
          match question d with
          | .ok a => .ok a
          | .error code => .error (.system code (some path) none), d) := by
  unfold DiskM.ask
  cases Disk.hasNul path with
  | true => rfl
  | false =>
      simp only [Bool.false_eq_true, if_false]
      rw [run_bind, run_get]
      dsimp only
      cases question d with
      | ok a => rfl
      | error code => rfl

theorem run_change (path : String) (request : Disk → Except Errno Disk) (d : Disk) :
    (DiskM.change path request).run d =
      if Disk.hasNul path then (.error .nullByte, d)
      else
        match request d with
        | .ok d' => (.ok ⟨⟩, d')
        | .error code => (.error (.system code (some path) none), d) := by
  unfold DiskM.change
  rw [run_bind, run_ask]
  cases Disk.hasNul path with
  | true => rfl
  | false =>
      simp only [Bool.false_eq_true, if_false]
      cases request d with
      | ok d' => rfl
      | error code => rfl

theorem stateAfter_change (path : String) (request : Disk → Except Errno Disk) (d : Disk) :
    stateAfter (DiskM.change path request) d =
      if Disk.hasNul path then d else (request d).toOption.getD d := by
  rw [stateAfter, run_change]
  split
  · rfl
  · cases request d with
    | ok d' => rfl
    | error code => rfl

/-- The disk once the directory at a place is empty. -/
def Disk.emptied (d : Disk) (place : Place) : Disk :=
  if place.lost.isEmpty then d.clear place.base else d

/-- A directory is emptied where its path leads, and then removed by its path. -/
theorem run_removeTree {path : String} (hnul : Disk.hasNul path = false) (d : Disk) :
    (DiskM.removeTree path).run d =
      match d.status false path with
      | .error code => (.error (.system code (some path) none), d)
      | .ok (place, node) =>
        if node.isDir then
          (DiskM.change path fun d => d.removeDirectory path).run (d.emptied place)
        else (.error (.system .notDirectory (some path) none), d) := by
  unfold DiskM.removeTree
  rw [run_bind, run_ask, hnul, if_neg (by decide)]
  cases d.status false path with
  | error code => rfl
  | ok found =>
      obtain ⟨place, node⟩ := found
      cases hdir : node.isDir with
      | false => simp [hdir, run_throw]
      | true =>
          simp only [hdir, Bool.not_true, Bool.false_eq_true, if_false, if_true, Disk.emptied]
          cases place.lost.isEmpty with
          | true => rfl
          | false => rfl

section

variable {R : Disk → Disk → Prop} (hR : IsFrame R)

include hR

theorem respects_ask {α : Type} (path : String) (question : Disk → Except Errno α) :
    Respects R (DiskM.ask path question) := by
  intro d
  rw [stateAfter, run_ask]
  exact hR.refl d

theorem respects_change (path : String) {request : Disk → Except Errno Disk}
    (hrequest : ∀ d d', Disk.hasNul path = false → request d = .ok d' → R d d') :
    Respects R (DiskM.change path request) := by
  intro d
  rw [stateAfter_change]
  split
  · exact hR.refl d
  · next hnul =>
    cases hd : request d with
    | ok d' => exact hrequest d d' (by simpa using hnul) hd
    | error code => exact hR.refl d

end

/-! ## What a removal changes -/

/-- Entries have only been taken out, and the current directory has not moved unless it is gone. -/
structure Disk.Fades (d d' : Disk) : Prop where
  tree : d.tree.Prunes d'.tree
  current : d'.cwd = d.cwd ∨ d'.tree.kindAt d.cwd.base ≠ some .directory
  files : d'.files.length = d.files.length

theorem isFrame_fades : IsFrame Disk.Fades where
  refl d := ⟨Node.Prunes.refl _, Or.inl rfl, rfl⟩
  trans := by
    intro d d' d'' h h'
    refine ⟨h.tree.trans h'.tree, ?_, h'.files.trans h.files⟩
    rcases h.current with hsame | hgone
    · rw [← hsame]
      exact h'.current
    · right
      rcases h'.tree d.cwd.base with hnone | hkind
      · simp [hnone]
      · rwa [hkind]

namespace Disk

theorem kindOf_of_entryAt {d : Disk} {parent : Place} {name : String} {entry : Option Node}
    (hentry : d.entryAt parent name = .ok entry) :
    parent.kindOf d.tree name = entry.map Node.kind := by
  unfold entryAt at hentry
  split at hentry
  · cases hentry
  · simp only [Except.ok.injEq] at hentry
    rw [Place.kindOf, hentry]

/-- An entry that is not a directory is taken out at the tip of a path. -/
theorem unlink_inv {d d' : Disk} {path : String} (hunlink : d.unlink path = .ok d') :
    ∃ parent name, d.tip path = .ok (parent, .name name false) ∧
      (∃ kind, parent.kindOf d.tree name = some kind) ∧
        d'.tree = d.tree.drop parent.base name ∧ d'.cwd = d.cwd ∧
          d'.files.length = d.files.length := by
  unfold unlink at hunlink
  cases htip : d.tip path with
  | error code => simp [htip, bind, Except.bind] at hunlink
  | ok found =>
      obtain ⟨parent, tip⟩ := found
      rw [htip] at hunlink
      cases tip with
      | name name slash =>
          simp only [bind, Except.bind] at hunlink
          cases hentry : d.entryAt parent name with
          | error code => simp [hentry] at hunlink
          | ok entry =>
              have hkind := kindOf_of_entryAt hentry
              simp only [hentry] at hunlink
              cases slash with
              | true => rcases entry with _ | (_ | _ | _ | _ | _) <;> simp at hunlink
              | false =>
                  refine ⟨parent, name, rfl, ?_⟩
                  rcases entry with _ | (_ | _ | _ | _ | _) <;> simp at hunlink <;> subst d' <;>
                    simp [mapReferences, hkind]
      | _ => simp [bind, Except.bind] at hunlink

/-- An empty directory is taken out at the tip of a path. -/
theorem removeDirectory_inv {d d' : Disk} {path : String}
    (hremove : d.removeDirectory path = .ok d') :
    ∃ parent name slash, d.tip path = .ok (parent, .name name slash) ∧
      parent.kindOf d.tree name = some .directory ∧
        d'.tree = d.tree.drop parent.base name ∧
          d'.cwd = d.cwd.afterRemoval (parent.base ++ [name]) ∧
            d'.files.length = d.files.length := by
  unfold removeDirectory at hremove
  cases htip : d.tip path with
  | error code => simp [htip, bind, Except.bind] at hremove
  | ok found =>
      obtain ⟨parent, tip⟩ := found
      rw [htip] at hremove
      cases tip with
      | name name slash =>
          simp only [bind, Except.bind] at hremove
          cases hentry : d.entryAt parent name with
          | error code => simp [hentry] at hremove
          | ok entry =>
              have hkind := kindOf_of_entryAt hentry
              simp only [hentry] at hremove
              rcases entry with _ | (_ | ⟨es, modified⟩ | _ | _ | _)
              case some.dir =>
                  cases es with
                  | nil =>
                      simp only [List.isEmpty_nil, Bool.not_true, Bool.false_eq_true, if_false,
                        Except.ok.injEq] at hremove
                      subst d'
                      exact ⟨parent, name, slash, rfl, hkind, rfl, rfl, by simp [mapReferences]⟩
                  | cons entry es => simp at hremove
              all_goals simp at hremove
      | _ => simp [bind, Except.bind] at hremove

theorem fades_of_unlink {d d' : Disk} {path : String} (hunlink : d.unlink path = .ok d') :
    d.Fades d' := by
  obtain ⟨parent, name, -, -, htree, hcwd, hfiles⟩ := unlink_inv hunlink
  exact ⟨htree ▸ Node.prunes_drop _ _ _, Or.inl hcwd, hfiles⟩

theorem fades_of_removeDirectory {d d' : Disk} {path : String}
    (hremove : d.removeDirectory path = .ok d') : d.Fades d' := by
  obtain ⟨parent, name, slash, -, -, htree, hcwd, hfiles⟩ := removeDirectory_inv hremove
  refine ⟨htree ▸ Node.prunes_drop _ _ _, ?_, hfiles⟩
  rw [hcwd, Place.afterRemoval]
  split
  · next hcurrent =>
      right
      rw [htree, Node.kindAt_drop, hcurrent.1, if_pos (List.prefix_refl _)]
      simp
  · exact Or.inl rfl

theorem fades_clear (d : Disk) (location : Location) : d.Fades (d.clear location) := by
  refine ⟨Node.prunes_clear _ _, ?_, by simp [clear, mapReferences]⟩
  show d.cwd.afterClearing location = d.cwd ∨ _
  unfold Place.afterClearing
  split
  · next hbehind =>
      rw [List.isPrefixOf_iff_prefix] at hbehind
      by_cases hself : location = d.cwd.base
      · left
        rw [hself]
        simp
      · right
        show (d.tree.modify (Node.mapEntries fun _ => []) location).kindAt d.cwd.base ≠ _
        rw [Node.kindAt_clear, if_pos ⟨hbehind, hself⟩]
        simp
  · exact Or.inl rfl

end Disk

theorem respects_removeTree (path : String) : Respects Disk.Fades (DiskM.removeTree path) := by
  unfold DiskM.removeTree
  refine respects_bind isFrame_fades (respects_ask isFrame_fades _ _) fun found => ?_
  obtain ⟨place, node⟩ := found
  have hremove : Respects Disk.Fades (DiskM.change path fun d => d.removeDirectory path) :=
    respects_change isFrame_fades _ fun _ _ _ => Disk.fades_of_removeDirectory
  have hempty : Respects Disk.Fades (if place.lost.isEmpty then do
      modify fun d => d.clear place.base
      DiskM.change path fun d => d.removeDirectory path
    else DiskM.change path fun d => d.removeDirectory path) := by
    split
    · exact respects_bind isFrame_fades (fun d => Disk.fades_clear d _) fun _ => hremove
    · exact hremove
  dsimp only
  split
  · exact respects_bind isFrame_fades (respects_throw isFrame_fades _) fun _ => hempty
  · exact hempty

theorem respects_removeAny (path : String) : Respects Disk.Fades (DiskM.removeAny path) := by
  refine respects_bind isFrame_fades (respects_get isFrame_fades) fun d => ?_
  split
  · exact respects_change isFrame_fades _ fun _ _ _ => Disk.fades_of_unlink
  · split
    · exact respects_removeTree path
    · exact respects_pure isFrame_fades _

/-! ## Reports -/

theorem respects_kindOf {R : Disk → Disk → Prop} (hR : IsFrame R) (path : String) :
    Respects R (DiskM.kindOf path) :=
  respects_bind hR (respects_get hR) fun _ => respects_pure hR _

/-- Reporting a failure changes nothing on the disk. -/
theorem stateAfter_reporting {prefixed : String → DiskM String}
    (hprefixed : ∀ reason, Respects Eq (prefixed reason)) (action : DiskM Report) (d : Disk) :
    stateAfter (DiskM.reporting prefixed action) d = stateAfter action d := by
  unfold DiskM.reporting
  rw [stateAfter, run_tryCatch, run_eq action]
  cases resultOf action d with
  | ok report => rfl
  | error failure =>
      dsimp only
      cases failure.reason? with
      | none => rfl
      | some reason =>
          have hbind : Respects Eq (do return Report.refused (← prefixed reason)) :=
            respects_bind isFrame_eq (hprefixed reason) fun _ => respects_pure isFrame_eq _
          exact (hbind _).symm

/-- What holds of the removal of a directory holds of pruning one. -/
theorem respects_removeIfEmpty {R : Disk → Disk → Prop} (hR : IsFrame R)
    (hremove : ∀ path d d', Disk.removeDirectory d path = .ok d' → R d d') (directory : String) :
    Respects R (DiskM.removeIfEmpty directory) := by
  unfold DiskM.removeIfEmpty
  refine respects_bind hR (respects_get hR) fun d => ?_
  split
  · exact respects_pure hR _
  · refine respects_bind hR (respects_ask hR _ _) fun names => ?_
    split
    · exact respects_pure hR _
    · intro d
      rw [stateAfter_reporting fun _ => respects_pure isFrame_eq _]
      exact respects_bind hR (respects_change hR _ fun d d' _ => hremove _ d d')
        (fun _ => respects_pure hR _) d

/-- The reports of a removal change nothing; what is left is the removal itself. -/
theorem stateAfter_rm (path : String) (d : Disk) :
    stateAfter (DiskM.rm path false) d = stateAfter (DiskM.removeAny path) d := by
  have hremove : stateAfter (do DiskM.removeAny path; return Report.success) d =
      stateAfter (DiskM.removeAny path) d := by
    rw [stateAfter, run_bind, run_eq (DiskM.removeAny path)]
    cases resultOf (DiskM.removeAny path) d <;> rfl
  have hprefixed : ∀ reason, Respects Eq (do
      return "cannot remove " ++ (← DiskM.kindOf path) ++ " " ++ path ++ " " ++ reason) :=
    fun _ => respects_bind isFrame_eq (respects_kindOf isFrame_eq path) fun _ =>
      respects_pure isFrame_eq _
  have hreported := (stateAfter_reporting hprefixed _ d).trans hremove
  unfold DiskM.rm
  rw [stateAfter, run_bind, run_eq (DiskM.reporting _ _)]
  rcases resultOf (DiskM.reporting _ _) d with _ | (_ | _)
  · exact hreported
  · exact hreported
  · exact hreported

/-- The failures that file helpers report. -/
def IsReported (failure : Failure) : Prop := failure.reason?.isSome = true

theorem isReported_system (code : Errno) (path target : Option String) :
    IsReported (.system code path target) := rfl

theorem failsAs_ask {α : Type} {path : String} (hnul : Disk.hasNul path = false)
    (question : Disk → Except Errno α) : FailsAs IsReported (DiskM.ask path question) := by
  intro d failure hfailure
  rw [resultOf, run_ask, hnul, if_neg (by decide)] at hfailure
  cases hquestion : question d with
  | ok a => simp [hquestion] at hfailure
  | error code =>
      simp only [hquestion, Except.error.injEq] at hfailure
      exact hfailure ▸ isReported_system _ _ _

theorem failsAs_change {path : String} (hnul : Disk.hasNul path = false)
    (request : Disk → Except Errno Disk) : FailsAs IsReported (DiskM.change path request) :=
  failsAs_bind (failsAs_ask hnul request) fun _ => failsAs_of_ok fun _ => ⟨_, rfl⟩

theorem failsAs_removeTree {path : String} (hnul : Disk.hasNul path = false) :
    FailsAs IsReported (DiskM.removeTree path) := by
  unfold DiskM.removeTree
  refine failsAs_bind (failsAs_ask hnul _) fun found => ?_
  obtain ⟨place, node⟩ := found
  have hremove : FailsAs IsReported (DiskM.change path fun d => d.removeDirectory path) :=
    failsAs_change hnul _
  have hempty : FailsAs IsReported (if place.lost.isEmpty then do
      modify fun d => d.clear place.base
      DiskM.change path fun d => d.removeDirectory path
    else DiskM.change path fun d => d.removeDirectory path) := by
    split
    · exact failsAs_bind (failsAs_of_ok fun _ => ⟨_, rfl⟩) fun _ => hremove
    · exact hremove
  dsimp only
  split
  · exact failsAs_bind (failsAs_throw (isReported_system _ _ _)) fun _ => hempty
  · exact hempty

theorem fades_rm (path : String) (d : Disk) : d.Fades (stateAfter (DiskM.rm path false) d) := by
  rw [stateAfter_rm]
  exact respects_removeAny path d

/-! ## Kinds that a path leads to -/

namespace Disk

/-- The kind of what a path leads to. -/
def kindOf (d : Disk) (follow : Bool) (path : String) : Option Kind :=
  (d.node? follow path).map Node.kind

/-- The kind of what a look-up has found. -/
def spotKind (d : Disk) : Spot → Option Kind
  | .directory place => some (d.nodeAt place).kind
  | .leaf _ _ node => some node.kind
  | .vacant .. => none

theorem kindOf_eq (d : Disk) {follow : Bool} {path : String} (hnul : hasNul path = false) :
    d.kindOf follow path = (d.locate follow path).toOption.bind d.spotKind := by
  unfold kindOf node? status
  rw [hnul, if_neg (by decide)]
  cases d.locate follow path with
  | error code => rfl
  | ok spot => cases spot <;> rfl

theorem kindOf_of_nul (d : Disk) {follow : Bool} {path : String} (hnul : hasNul path = true) :
    d.kindOf follow path = none := by
  unfold kindOf node?
  rw [hnul, if_pos rfl]
  rfl

theorem entryExists_eq (d : Disk) (path : String) :
    d.entryExists path = (d.kindOf false path).isSome := by
  rw [entryExists, kindOf, Option.isSome_map]

theorem isFile_iff (d : Disk) (path : String) :
    d.isFile path = true ↔ d.kindOf true path = some .file := by
  unfold isFile kindOf
  rcases d.node? true path with _ | (_ | _ | _ | _ | _) <;> simp [Node.isFile, Node.kind]

theorem isLink_iff (d : Disk) (path : String) :
    d.isLink path = true ↔ ∃ target, d.kindOf false path = some (.link target) := by
  unfold isLink kindOf
  rcases d.node? false path with _ | (_ | _ | _ | _ | _) <;> simp [Node.isLink, Node.kind]

theorem isDirectory_iff (d : Disk) (path : String) :
    d.isDirectory path = true ↔ d.kindOf true path = some .directory := by
  unfold isDirectory kindOf
  rcases d.node? true path with _ | (_ | _ | _ | _ | _) <;> simp [Node.isDir, Node.kind]

theorem hasNul_of_isDirectory {d : Disk} {path : String} (hpath : d.isDirectory path = true) :
    hasNul path = false := by
  cases hnul : hasNul path with
  | false => rfl
  | true =>
      rw [isDirectory_iff, kindOf_of_nul d hnul] at hpath
      cases hpath

theorem hasNul_of_entryExists {d : Disk} {path : String} (hpath : d.entryExists path = true) :
    hasNul path = false := by
  cases hnul : hasNul path with
  | false => rfl
  | true =>
      rw [entryExists_eq, kindOf_of_nul d hnul] at hpath
      cases hpath

/-- A path to a directory is found to lead to one. -/
theorem exists_place_of_isDirectory {d : Disk} {path : String}
    (hpath : d.isDirectory path = true) :
    ∃ place, d.locate true path = .ok (.directory place) := by
  have hkind := (isDirectory_iff d path).mp hpath
  rw [kindOf_eq d (hasNul_of_isDirectory hpath)] at hkind
  cases hlocate : d.locate true path with
  | error code => simp [hlocate, Except.toOption] at hkind
  | ok spot =>
      cases spot with
      | directory place => exact ⟨place, rfl⟩
      | vacant parent name => simp [hlocate, Except.toOption, spotKind] at hkind
      | leaf parent name node =>
          simp only [hlocate, Except.toOption, Option.bind_some, spotKind, Option.some.injEq] at hkind
          exact absurd hkind (kind_ne_directory_of_leaf hlocate)

/-- A directory that is gone looks like an empty one. -/
theorem kind_nodeAt (d : Disk) (place : Place) :
    (d.nodeAt place).kind =
      if place.lost.isEmpty then (d.tree.kindAt place.base).getD .directory else .directory := by
  unfold nodeAt
  split
  · rw [Node.kindAt]
    cases d.tree.get? place.base <;> rfl
  · rfl

theorem kind_nodeAt_of_prunes {d d' : Disk} (hprunes : d.tree.Prunes d'.tree) {place : Place}
    {kind : Kind} (hkind : kind ≠ .directory) (hnode : (d'.nodeAt place).kind = kind) :
    (d.nodeAt place).kind = kind := by
  rw [kind_nodeAt] at hnode ⊢
  split at hnode
  · next hlost =>
      rw [if_pos hlost]
      rcases hprunes place.base with hnone | hsame
      · rw [hnone] at hnode
        exact absurd hnode.symm hkind
      · rwa [hsame] at hnode
  · exact absurd hnode.symm hkind

/-- What a path leads to after entries were taken out, it led to before. -/
theorem kindOf_of_prunes {d d' : Disk} (hprunes : d.tree.Prunes d'.tree) {path : String}
    (hstart : startPlace d'.cwd path = startPlace d.cwd path) {follow : Bool} {kind : Kind}
    (hkind : kind ≠ .directory) (hfound : d'.kindOf follow path = some kind) :
    d.kindOf follow path = some kind := by
  cases hnul : hasNul path with
  | true =>
      rw [kindOf_of_nul d' hnul] at hfound
      simp at hfound
  | false =>
      rw [kindOf_eq _ hnul] at hfound ⊢
      cases hlocate : d'.locate follow path with
      | error code => simp [hlocate, Except.toOption] at hfound
      | ok spot =>
          have hremains := locate_of_prunes hprunes hstart hlocate
          rw [hlocate] at hfound
          simp only [Except.toOption, Option.bind_some] at hfound
          cases spot with
          | vacant parent name => simp [spotKind] at hfound
          | directory place =>
              have hbefore : d.locate follow path = .ok (.directory place) := hremains
              rw [hbefore]
              simp only [spotKind, Option.some.injEq] at hfound
              exact congrArg some (kind_nodeAt_of_prunes hprunes hkind hfound)
          | leaf parent name node =>
              obtain ⟨old, hbefore, hold⟩ := hremains
              rw [hbefore]
              simp only [spotKind, Option.some.injEq] at hfound
              simp only [Except.toOption, Option.bind_some, spotKind, hold, hfound]

/-! ## The entry at the tip of a path -/

theorem locate_of_tip {d : Disk} {path name : String} (hpath : NamesEntry path name)
    {parent : Place} (htip : d.tip path = .ok (parent, .name name false)) :
    ∃ links, ∀ follow, d.locate follow path =
      if greatestName < name.utf8ByteSize then .error .nameTooLong
      else
        lastSpot follow false parent name
          (fun target => behindLink d.tree follow linkLimit parent false target links)
          ((parent.entries d.tree).lookup name) := by
  rcases tip_cases d hpath with ⟨code, herror, -⟩ | ⟨other, links, hother, hlocate⟩
  · simp [herror] at htip
  · rw [hother] at htip
    simp only [Except.ok.injEq, Prod.mk.injEq, and_true] at htip
    subst other
    exact ⟨links, hlocate⟩

theorem tip_of_prunes {d d' : Disk} (hprunes : d.tree.Prunes d'.tree) {path name : String}
    (hpath : NamesEntry path name)
    (hstart : startPlace d'.cwd path = startPlace d.cwd path) :
    d'.tip path = .error .notFound ∨ d'.tip path = d.tip path := by
  rw [tip_eq _ hpath, tip_eq _ hpath, hstart]
  cases checkPath path with
  | error code => exact Or.inr rfl
  | ok _ =>
      rcases enter_of_prunes hprunes linkLimit (startPlace d.cwd path)
        (pathNames path).dropLast with hnone | hsame
      · rw [hnone]
        exact Or.inl rfl
      · rw [hsame]
        exact Or.inr rfl

theorem kindOf_of_tip_error {d : Disk} {path name : String} (hpath : NamesEntry path name)
    {code : Errno} (htip : d.tip path = .error code) (follow : Bool) :
    d.kindOf follow path = none := by
  cases hnul : hasNul path with
  | true => exact kindOf_of_nul d hnul
  | false =>
      rcases tip_cases d hpath with ⟨other, -, hlocate⟩ | ⟨parent, links, hother, -⟩
      · rw [kindOf_eq _ hnul, hlocate]
        rfl
      · simp [hother] at htip

theorem kindOf_of_vacant {d : Disk} {path name : String} (hpath : NamesEntry path name)
    {parent : Place} (htip : d.tip path = .ok (parent, .name name false))
    (hvacant : parent.kindOf d.tree name = none) (follow : Bool) :
    d.kindOf follow path = none := by
  cases hnul : hasNul path with
  | true => exact kindOf_of_nul d hnul
  | false =>
      obtain ⟨links, hlocate⟩ := locate_of_tip hpath htip
      rw [Place.kindOf, Option.map_eq_none_iff] at hvacant
      rw [kindOf_eq _ hnul, hlocate, hvacant]
      split <;> rfl

theorem get?_of_lookup {tree : Node} {parent : Place} {name : String} {node : Node}
    (hentry : (parent.entries tree).lookup name = some node) :
    parent.lost = [] ∧ tree.get? (parent.base ++ [name]) = some node := by
  unfold Place.entries at hentry
  split at hentry
  · next hlost =>
      refine ⟨by simpa using hlost, ?_⟩
      rw [Node.get?_append]
      cases hbase : tree.get? parent.base with
      | none => simp [hbase] at hentry
      | some found =>
          rw [hbase] at hentry
          simp only [Option.elim] at hentry
          simp [Node.get?, hentry]
  · simp at hentry

theorem nodeAt_down {d : Disk} {parent : Place} {name : String} {node : Node}
    (hentry : (parent.entries d.tree).lookup name = some node) :
    d.nodeAt (parent.down name) = node := by
  obtain ⟨hlost, hget⟩ := get?_of_lookup hentry
  simp only [nodeAt, Place.down, hlost, List.isEmpty_nil, if_true, hget, Option.getD_some]

/-- A file or a link that a path names is at the tip of the path, where it can be unlinked. -/
theorem exists_unlink {d : Disk} {path name : String} (hpath : NamesEntry path name)
    (hnamed : d.isFile path = true ∨ d.isLink path = true) :
    ∃ parent d', d.tip path = .ok (parent, .name name false) ∧ d.unlink path = .ok d' := by
  have hnul : hasNul path = false := by
    cases hnul : hasNul path with
    | false => rfl
    | true =>
        rw [isFile_iff, isLink_iff, kindOf_of_nul d hnul, kindOf_of_nul d hnul] at hnamed
        simp at hnamed
  rcases tip_cases d hpath with ⟨code, htip, -⟩ | ⟨parent, links, htip, hlocate⟩
  · rw [isFile_iff, isLink_iff, kindOf_of_tip_error hpath htip,
      kindOf_of_tip_error hpath htip] at hnamed
    simp at hnamed
  · refine ⟨parent, ?_⟩
    rw [isFile_iff, isLink_iff, kindOf_eq _ hnul, kindOf_eq _ hnul, hlocate, hlocate] at hnamed
    unfold unlink
    rw [htip]
    by_cases hlong : greatestName < name.utf8ByteSize
    · rw [if_pos hlong, if_pos hlong] at hnamed
      simp [Except.toOption] at hnamed
    · rw [if_neg hlong, if_neg hlong] at hnamed
      simp only [bind, Except.bind, entryAt, if_neg hlong]
      cases hentry : (parent.entries d.tree).lookup name with
      | none => simp [hentry, lastSpot, Except.toOption, spotKind] at hnamed
      | some node =>
          cases node with
          | dir es modified =>
              have hdir := nodeAt_down hentry
              simp [hentry, lastSpot, Except.toOption, spotKind, hdir, Node.kind] at hnamed
          | _ => exact ⟨_, trivial, rfl⟩

end Disk

theorem run_removeAny (path : String) (d : Disk) :
    (DiskM.removeAny path).run d =
      if d.isFile path || d.isLink path then (DiskM.change path fun d => d.unlink path).run d
      else if d.isDirectory path then (DiskM.removeTree path).run d
      else (.ok (), d) := by
  unfold DiskM.removeAny
  rw [run_bind, run_get]
  dsimp only
  split
  · rfl
  · split
    · rfl
    · rfl

theorem stateAfter_removeAny (path : String) (d : Disk) :
    stateAfter (DiskM.removeAny path) d =
      if d.isFile path || d.isLink path then
        stateAfter (DiskM.change path fun d => d.unlink path) d
      else if d.isDirectory path then stateAfter (DiskM.removeTree path) d
      else d := by
  rw [stateAfter, run_removeAny]
  split
  · rfl
  · split
    · rfl
    · rfl

theorem failsAs_removeAny (path : String) : FailsAs IsReported (DiskM.removeAny path) := by
  unfold DiskM.removeAny
  cases hnul : Disk.hasNul path with
  | false =>
      refine failsAs_bind (failsAs_of_ok fun d => ⟨d, rfl⟩) fun d => ?_
      split
      · exact failsAs_change hnul _
      · split
        · exact failsAs_removeTree hnul
        · exact failsAs_of_ok fun _ => ⟨_, rfl⟩
  | true =>
      intro d failure hfailure
      rw [resultOf, run_bind, run_get] at hfailure
      dsimp only at hfailure
      simp only [Disk.isFile, Disk.isLink, Disk.isDirectory, Disk.node?, hnul, if_pos] at hfailure
      cases hfailure

/-- A removal always ends with a report. -/
theorem exists_report (path : String) (d : Disk) :
    ∃ report, resultOf (DiskM.rm path false) d = .ok report := by
  have hremoved : ∃ report, resultOf (DiskM.reporting
      (fun reason => do
        return "cannot remove " ++ (← DiskM.kindOf path) ++ " " ++ path ++ " " ++ reason)
      (do
        DiskM.removeAny path
        return .success)) d = .ok report := by
    unfold DiskM.reporting
    rw [resultOf, run_tryCatch, run_bind]
    have hfails := failsAs_removeAny path d
    rw [resultOf] at hfails
    rcases hrun : (DiskM.removeAny path).run d with ⟨failure | _, d'⟩
    · rw [hrun] at hfails
      obtain ⟨reason, hreason⟩ := Option.isSome_iff_exists.mp (hfails failure rfl)
      dsimp only
      rw [hreason]
      exact ⟨_, rfl⟩
    · exact ⟨_, rfl⟩
  obtain ⟨report, hreport⟩ := hremoved
  unfold DiskM.rm
  rw [resultOf, run_bind, run_eq (DiskM.reporting _ _), hreport]
  cases report with
  | success => exact ⟨_, rfl⟩
  | refused message => exact ⟨_, rfl⟩

/-- Neither a file nor a link stands at the path. -/
structure Disk.HoldsNoFile (d : Disk) (path : String) : Prop where
  no_file : d.isFile path = false
  no_link : d.isLink path = false

theorem startPlace_of_isAbsolute {path : String} (habsolute : Path.isAbsolute path = true)
    (place : Place) : startPlace place path = Place.root := by
  rw [startPlace, habsolute]
  rfl

/-- Taking out entries brings no file back. -/
theorem Disk.HoldsNoFile.of_prunes {d d' : Disk} {path : String} (hnofile : d.HoldsNoFile path)
    (habsolute : Path.isAbsolute path = true) (hprunes : d.tree.Prunes d'.tree) :
    d'.HoldsNoFile path := by
  have hstart : startPlace d'.cwd path = startPlace d.cwd path :=
    (startPlace_of_isAbsolute habsolute _).trans (startPlace_of_isAbsolute habsolute _).symm
  obtain ⟨hfile, hlink⟩ := hnofile
  rw [Bool.eq_false_iff, ne_eq, Disk.isFile_iff] at hfile
  rw [Bool.eq_false_iff, ne_eq, Disk.isLink_iff] at hlink
  constructor
  · rw [Bool.eq_false_iff, ne_eq, Disk.isFile_iff]
    exact fun hfound => hfile (Disk.kindOf_of_prunes hprunes hstart (by simp) hfound)
  · rw [Bool.eq_false_iff, ne_eq, Disk.isLink_iff]
    rintro ⟨target, hfound⟩
    exact hlink ⟨target, Disk.kindOf_of_prunes hprunes hstart (by simp) hfound⟩

/-- Removing what a path names leaves neither a file nor a link there. -/
theorem rm_leaves_no_file {path name : String} (hpath : NamesEntry path name)
    (habsolute : Path.isAbsolute path = true) (d : Disk) :
    (stateAfter (DiskM.rm path false) d).HoldsNoFile path := by
  by_cases hnamed : d.isFile path = true ∨ d.isLink path = true
  · obtain ⟨parent, d', htip, hunlink⟩ := Disk.exists_unlink hpath hnamed
    have hafter : stateAfter (DiskM.rm path false) d = d' := by
      have hnul : Disk.hasNul path = false := by
        cases hnul : Disk.hasNul path with
        | false => rfl
        | true => simp [Disk.isFile_iff, Disk.isLink_iff, Disk.kindOf_of_nul d hnul] at hnamed
      rw [stateAfter_rm, stateAfter_removeAny, if_pos (by simpa using hnamed), stateAfter_change,
        hnul, hunlink]
      rfl
    obtain ⟨other, found, hother, -, htree, -, -⟩ := Disk.unlink_inv hunlink
    rw [htip] at hother
    simp only [Except.ok.injEq, Prod.mk.injEq, Tip.name.injEq, and_true] at hother
    obtain ⟨rfl, rfl⟩ := hother
    have hnone : ∀ follow, d'.kindOf follow path = none := by
      intro follow
      have hprunes := (Disk.fades_of_unlink hunlink).tree
      rcases Disk.tip_of_prunes hprunes hpath ((startPlace_of_isAbsolute habsolute _).trans
        (startPlace_of_isAbsolute habsolute _).symm) with herror | hsame
      · exact Disk.kindOf_of_tip_error hpath herror follow
      · apply Disk.kindOf_of_vacant hpath (hsame.trans htip)
        rw [Place.kindOf_eq, htree, Node.kindAt_drop, if_pos (List.prefix_refl _), ite_self]
    rw [hafter]
    constructor
    · rw [Bool.eq_false_iff, ne_eq, Disk.isFile_iff, hnone]
      simp
    · rw [Bool.eq_false_iff, ne_eq, Disk.isLink_iff, hnone]
      simp
  · simp only [not_or, Bool.not_eq_true] at hnamed
    exact Disk.HoldsNoFile.of_prunes ⟨hnamed.1, hnamed.2⟩ habsolute (fades_rm path d).tree

end BuildRunner
