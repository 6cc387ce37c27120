import BuildRunner.Proofs.Disk.Sinking
import Mathlib.Data.List.DropRight

/-!
# What a removal spares

A path names an entry by its last name; links are followed on the way there.  `rm` works on this
entry alone: whatever lies elsewhere is there afterwards and is as it was, whether or not the removal
succeeds, and so is everything that links below the entry lead to.  The one way past the entry is
a link with something behind its name, a slash or a dot: there the directory that the link leads to
is emptied.
-/

namespace BuildRunner

variable {κ : Type}

/-- The names of a path without the dots behind the last of them. -/
def properNames (path : String) : List String := (pathNames path).rdropWhile (· == ".")

/-- Where a name leads from a place as long as it is that of a directory; no name leads nowhere
else. -/
def Place.child (place : Place) : Option String → Place
  | none => place
  | some name => if name = ".." then place.up else place.down name

/-- The location of the entry that a path names, unless its directory is lost. -/
def Disk.named? (d : Disk) (path : String) : Option Location :=
  match enter d.tree linkLimit (startPlace d.cwd path) (properNames path).dropLast with
  | .error _ => none
  | .ok (place, _) =>
    let entry := place.child (properNames path).getLast?
    if entry.lost.isEmpty then some entry.base else none

/-- The entry that a path names is a link. -/
def Disk.NamesLink (d : Disk) (path : String) : Prop :=
  ∃ location target, d.named? path = some location ∧
    d.tree.kindAt location = some (.link target)

/-! ## The entry that a path names -/

theorem exists_pathNames_eq (path : String) :
    ∃ k, pathNames path = properNames path ++ List.replicate k "." ∧
      (properNames path).getLast? ≠ some "." := by
  unfold properNames
  induction pathNames path using List.reverseRecOn with
  | nil => exact ⟨0, rfl, by simp⟩
  | append_singleton front last ih =>
      by_cases hlast : last = "."
      · subst last
        obtain ⟨k, hfront, hproper⟩ := ih
        rw [List.rdropWhile_concat_pos _ _ _ (by simp)]
        refine ⟨k + 1, ?_, hproper⟩
        rw [List.replicate_succ', ← List.append_assoc, ← hfront]
      · rw [List.rdropWhile_concat_neg _ _ _ (by simpa using hlast)]
        exact ⟨0, by simp, by simpa using hlast⟩

/-- Dots are no step on the way. -/
theorem enter_dots (tree : Node) (links : Nat) (place : Place) (k : Nat) :
    enter tree links place (List.replicate k ".") = .ok (place, links) := by
  induction k with
  | zero => exact enter_nil _ _ _
  | succ k ih =>
      rw [List.replicate_succ', enter_append, ih]
      simp [Except.bind, enter_singleton]

namespace Disk

variable {d : Disk} {path : String}

theorem named?_of_enter {place : Place} {left : Nat}
    (henter : enter d.tree linkLimit (startPlace d.cwd path) (properNames path).dropLast =
      .ok (place, left))
    (hhere : (place.child (properNames path).getLast?).lost = []) :
    d.named? path = some (place.child (properNames path).getLast?).base := by
  rw [named?, henter]
  dsimp only
  rw [hhere, if_pos (by rfl)]

theorem named?_of_tip {parent : Place} {name : String} {slash : Bool}
    (htip : d.tip path = .ok (parent, .name name slash)) (hhere : parent.lost = []) :
    d.named? path = some (parent.base ++ [name]) := by
  obtain ⟨-, htip, left, henter⟩ := tip_eq_ok_iff.mp htip
  obtain ⟨hlast, hdot, hdotdot, -⟩ := lastTip_eq_name_iff.mp htip
  have hproper : properNames path = pathNames path := by
    obtain ⟨front, hfront⟩ := List.getLast?_eq_some_iff.mp hlast
    rw [properNames, hfront, List.rdropWhile_concat_neg _ _ _ (by simpa using hdot)]
  have hchild : parent.child (properNames path).getLast? = parent.down name := by
    rw [hproper, hlast, Place.child, if_neg hdotdot]
  rw [← hproper] at henter
  rw [named?_of_enter henter (by rw [hchild]; exact hhere), hchild]
  rfl

/-- The entry that a path names is a link if the name behind the way is one. -/
theorem namesLink_of_enter {above : Place} {left : Nat} {last target : String}
    (henter : enter d.tree linkLimit (startPlace d.cwd path) (properNames path).dropLast =
      .ok (above, left))
    (hlast : (properNames path).getLast? = some last) (hdotdot : last ≠ "..")
    (hkind : above.kindOf d.tree last = some (.link target)) : d.NamesLink path := by
  have habove := Place.lost_eq_nil_of_kindOf hkind
  have hchild : above.child (properNames path).getLast? = above.down last := by
    rw [hlast, Place.child, if_neg hdotdot]
  have hnamed := named?_of_enter henter (by rw [hchild]; exact habove)
  rw [hchild] at hnamed
  rw [Place.kindOf_eq, if_pos habove] at hkind
  exact ⟨_, target, hnamed, hkind⟩

/-- A path that ends in a name leads to what it names, unless that is a link. -/
theorem child_of_locate {place : Place} {slash : Bool} {fuel : Nat}
    (hnames : pathNames path = properNames path)
    (hfound : locateFrom d.tree false (fuel + 1) linkLimit (startPlace d.cwd path)
      (pathNames path) slash = .ok (.directory place))
    (hlink : d.NamesLink path → slash = false) :
    ∃ above left, enter d.tree linkLimit (startPlace d.cwd path)
      (properNames path).dropLast = .ok (above, left) ∧
        above.child (properNames path).getLast? = place := by
  obtain ⟨-, -, hproper⟩ := exists_pathNames_eq path
  rw [locateFrom_succ, hnames] at hfound
  cases henter : enter d.tree linkLimit (startPlace d.cwd path) (properNames path).dropLast with
  | error code => simp [henter, Except.bind] at hfound
  | ok found =>
      obtain ⟨above, left⟩ := found
      refine ⟨above, left, rfl, ?_⟩
      rw [henter] at hfound
      simp only [Except.bind] at hfound
      cases hlast : (properNames path).getLast? with
      | none => simpa [hlast, Place.child] using hfound
      | some last =>
          have hdot : last ≠ "." := fun heq => hproper (by rw [hlast, heq])
          simp only [hlast, if_neg hdot] at hfound
          rw [Place.child]
          split_ifs at hfound ⊢ with hdotdot hlong
          · simpa using hfound
          · have hkind : ∀ target, above.kindOf d.tree last = some (.link target) →
                slash = false := fun target hkind =>
              hlink (namesLink_of_enter henter hlast hdotdot hkind)
            rw [Place.kindOf] at hkind
            generalize (above.entries d.tree).lookup last = entry at hfound hkind
            rcases entry with _ | (_ | _ | target | _ | _)
            case some.dir => simpa [lastSpot] using hfound
            case some.link => simp [lastSpot, hkind target rfl] at hfound
            all_goals cases slash <;> simp [lastSpot] at hfound

/-- A path that ends in dots leads to what it names, unless that is a link. -/
theorem child_of_locate_dots {place : Place} {slash : Bool} {fuel k : Nat}
    (hnames : pathNames path = properNames path ++ List.replicate (k + 1) ".")
    (hfound : locateFrom d.tree false (fuel + 1) linkLimit (startPlace d.cwd path)
      (pathNames path) slash = .ok (.directory place))
    (hlink : ¬d.NamesLink path) :
    ∃ above left, enter d.tree linkLimit (startPlace d.cwd path)
      (properNames path).dropLast = .ok (above, left) ∧
        above.child (properNames path).getLast? = place := by
  obtain ⟨-, -, hproper⟩ := exists_pathNames_eq path
  rw [List.replicate_succ', ← List.append_assoc] at hnames
  rw [locateFrom_succ, hnames, List.getLast?_concat, List.dropLast_concat, enter_append] at hfound
  -- all that stands before the dots is entered
  have hall : ∃ left, enter d.tree linkLimit (startPlace d.cwd path) (properNames path) =
      .ok (place, left) := by
    cases henter : enter d.tree linkLimit (startPlace d.cwd path) (properNames path) with
    | error code => simp [henter, Except.bind] at hfound
    | ok found =>
        obtain ⟨there, left⟩ := found
        rw [henter] at hfound
        simp only [Except.bind, enter_dots, if_true, Except.ok.injEq, Spot.directory.injEq] at hfound
        exact ⟨left, by rw [hfound]⟩
  obtain ⟨left, henter⟩ := hall
  rcases List.eq_nil_or_concat (properNames path) with hnil | ⟨front, last, hfront⟩
  · rw [hnil] at henter ⊢
    exact ⟨place, left, henter, rfl⟩
  · rw [List.concat_eq_append] at hfront
    have hlast : (properNames path).getLast? = some last := by rw [hfront, List.getLast?_concat]
    have hdot : last ≠ "." := fun heq => hproper (by rw [hlast, heq])
    rw [hfront, enter_append] at henter
    rw [hfront, List.getLast?_concat, List.dropLast_concat]
    cases habove : enter d.tree linkLimit (startPlace d.cwd path) front with
    | error code => simp [habove, Except.bind] at henter
    | ok found =>
        obtain ⟨above, links⟩ := found
        refine ⟨above, links, rfl, ?_⟩
        rw [habove] at henter
        simp only [Except.bind, enter_singleton, if_neg hdot] at henter
        rw [Place.child]
        split_ifs at henter ⊢ with hdotdot hlong
        · simp only [Except.ok.injEq, Prod.mk.injEq] at henter
          exact henter.1
        · cases hkind : above.kindOf d.tree last with
          | none => simp [hkind] at henter
          | some kind =>
              rw [hkind] at henter
              cases kind with
              | directory =>
                  simp only [Except.ok.injEq, Prod.mk.injEq] at henter
                  exact henter.1
              | link target =>
                  have hway : enter d.tree linkLimit (startPlace d.cwd path)
                      (properNames path).dropLast = .ok (above, links) := by
                    rw [hfront, List.dropLast_concat, habove]
                  exact absurd (namesLink_of_enter hway hlast hdotdot hkind) hlink
              | _ => simp at henter

/-- A look-up that does not follow the entry that a path names ends at this entry. -/
theorem named?_of_locate {place : Place} (hlocate : d.locate false path = .ok (.directory place))
    (hhere : place.lost = []) (hlink : d.NamesLink path → ∃ name, NamesEntry path name) :
    d.named? path = some place.base := by
  obtain ⟨-, hfound⟩ := locate_eq_ok_iff.mp hlocate
  have hway : ∃ above left, enter d.tree linkLimit (startPlace d.cwd path)
      (properNames path).dropLast = .ok (above, left) ∧
        above.child (properNames path).getLast? = place := by
    obtain ⟨k, hnames, -⟩ := exists_pathNames_eq path
    cases k with
    | zero =>
        rw [List.replicate_zero, List.append_nil] at hnames
        refine child_of_locate hnames hfound fun hnamed => ?_
        obtain ⟨name, hname⟩ := hlink hnamed
        exact hname.no_slash
    | succ k =>
        refine child_of_locate_dots hnames hfound fun hnamed => ?_
        obtain ⟨name, hname⟩ := hlink hnamed
        have hlast := hname.last
        rw [hnames, List.replicate_succ', ← List.append_assoc, List.getLast?_concat,
          Option.some.injEq] at hlast
        exact hname.ne_dot hlast.symm
  obtain ⟨above, left, henter, rfl⟩ := hway
  exact named?_of_enter henter hhere

/-! ## Entries elsewhere -/

theorem recedes_emptied (d : Disk) (place : Place) : d.Recedes (d.emptied place) := by
  unfold emptied
  split
  · exact recedes_clear d _
  · exact isFrame_recedes.refl d

section

variable {location : Location} (hspared : ∀ named, d.named? path = some named → ¬named <+: location)

include hspared

theorem ownAt_unlink {d' : Disk} (hunlink : d.unlink path = .ok d') :
    d'.tree.ownAt location = d.tree.ownAt location := by
  obtain ⟨parent, name, htip, ⟨kind, hkind⟩, htree, -⟩ := unlink_inv hunlink
  have hnamed := named?_of_tip htip (Place.lost_eq_nil_of_kindOf hkind)
  rw [htree, Node.ownAt_drop _ (hspared _ hnamed)]

/-- The directory that is removed in the end is the one that the path named at first. -/
theorem ownAt_removeDirectory {late d' : Disk} (hrecedes : d.Recedes late)
    (hremove : late.removeDirectory path = .ok d') :
    d'.tree.ownAt location = late.tree.ownAt location := by
  obtain ⟨parent, name, slash, htip, hkind, htree, -⟩ := removeDirectory_inv hremove
  obtain ⟨before, hbefore, hsinks⟩ := hrecedes.tip htip
  have hparent := Place.lost_eq_nil_of_kindOf hkind
  rw [hsinks.eq_of_here hparent] at hbefore
  rw [htree, Node.ownAt_drop _ (hspared _ (named?_of_tip hbefore hparent))]

theorem ownAt_emptied {place : Place} (hlocate : d.locate false path = .ok (.directory place))
    (hlink : d.NamesLink path → ∃ name, NamesEntry path name) :
    (d.emptied place).tree.ownAt location = d.tree.ownAt location := by
  unfold emptied
  split
  · next hhere =>
      have hnamed := named?_of_locate hlocate (by simpa using hhere) hlink
      exact Node.ownAt_clear _ (hspared _ hnamed)
  · rfl

theorem ownAt_removeAny (hlink : d.NamesLink path → ∃ name, NamesEntry path name) :
    (stateAfter (DiskM.removeAny path) d).tree.ownAt location = d.tree.ownAt location := by
  rw [stateAfter_removeAny]
  split
  · rw [stateAfter_change]
    split
    · rfl
    · cases hunlink : d.unlink path with
      | error code => rfl
      | ok d' => exact ownAt_unlink hspared hunlink
  · split
    · next hdirectory =>
        rw [stateAfter, run_removeTree (hasNul_of_isDirectory hdirectory)]
        cases hstatus : d.status false path with
        | error code => rfl
        | ok found =>
            obtain ⟨place, node⟩ := found
            dsimp only
            split
            · next hnode =>
                have hemptied := ownAt_emptied hspared (locate_of_status hstatus hnode) hlink
                rw [run_change]
                split
                · exact hemptied
                · cases hremove : (d.emptied place).removeDirectory path with
                  | error code => exact hemptied
                  | ok d' =>
                      exact (ownAt_removeDirectory hspared (recedes_emptied d place)
                        hremove).trans hemptied
            · rfl
    · rfl

end

end Disk

namespace Act

/-- Whatever a removal reports, every entry that is neither the named one nor below it is still there
and as it was, unless the path names a link with something behind the name of it. -/
theorem rm_spares (path : String) (m : Machine κ)
    (hlink : m.disk.NamesLink path → ∃ name, NamesEntry path name) (location : Location)
    (hspared : ∀ named, m.disk.named? path = some named → ¬named <+: location) :
    (stateAfter (rm path false) m).disk.tree.ownAt location = m.disk.tree.ownAt location := by
  unfold rm
  rw [stateAfter, run_onDisk]
  show (stateAfter (DiskM.rm path false) m.disk).tree.ownAt location = _
  rw [stateAfter_rm]
  exact Disk.ownAt_removeAny hspared hlink

/-- A machine with a directory that a link leads to, and a link back to it in another directory. -/
def linkedMachine : Machine Unit where
  disk :=
    { tree := .dir [("t", .dir [("f", .file [] false none)] none), ("l", .link "t"),
        ("d", .dir [("k", .link "../t")] none)] none
      cwd := .root }
  environment := []

/-- Neither the removal of the link nor that of the other directory reaches the file. -/
theorem rm_spares_linkedMachine :
    (stateAfter (rm "l" false) linkedMachine).disk.tree.ownAt ["t", "f"] =
        some (.file [] false none) ∧
      (stateAfter (rm "d/" false) linkedMachine).disk.tree.ownAt ["t", "f"] =
        some (.file [] false none) := by
  have hfile : linkedMachine.disk.tree.ownAt ["t", "f"] = some (.file [] false none) := rfl
  have hname : NamesEntry "l" "l" := ⟨by decide, by decide, by decide, by decide⟩
  have hfirst : linkedMachine.disk.named? "l" = some ["l"] := by decide
  have hsecond : linkedMachine.disk.named? "d/" = some ["d"] := by decide
  have hdirectory : ¬linkedMachine.disk.NamesLink "d/" := by
    rintro ⟨named, target, hnamed, hkind⟩
    rw [hsecond, Option.some.injEq] at hnamed
    subst named
    cases hkind
  constructor
  · rw [← hfile]
    refine rm_spares "l" linkedMachine (fun _ => ⟨"l", hname⟩) ["t", "f"] fun named hnamed => ?_
    rw [hfirst, Option.some.injEq] at hnamed
    subst named
    decide
  · rw [← hfile]
    refine rm_spares "d/" linkedMachine (fun hnamed => absurd hnamed hdirectory) ["t", "f"]
      fun named hnamed => ?_
    rw [hsecond, Option.some.injEq] at hnamed
    subst named
    decide

/-- With a slash behind the link the file is gone, though the removal is refused in the end. -/
theorem not_spared_behind_link :
    linkedMachine.disk.named? "l/" = some ["l"] ∧ ¬["l"] <+: ["t", "f"] ∧
      (stateAfter (rm "l/" false) linkedMachine).disk.tree.ownAt ["t", "f"] ≠
        linkedMachine.disk.tree.ownAt ["t", "f"] := by
  refine ⟨by decide, by decide, ?_⟩
  have hgone : (stateAfter (rm "l/" false) linkedMachine).disk.tree.ownAt ["t", "f"] = none := by
    rfl
  rw [hgone]
  intro hsame
  cases hsame

end Act

end BuildRunner
