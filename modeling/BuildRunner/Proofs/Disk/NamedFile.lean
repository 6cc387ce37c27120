import BuildRunner.Execution.Job
import BuildRunner.Proofs.Disk.Removal

/-!
# Files by their paths

A path names a file at a location of the tree.  It goes on naming that location for as long as the
directories and links on the way stay and the current directory is the same, whatever becomes of
the file.  Reading and removing by the path then concern exactly what is at that location.
-/

namespace BuildRunner

namespace Disk

/-- The path names the entry at a location; whether there is one is left open. -/
structure Names (d : Disk) (path : String) (location : Location) : Prop where
  no_nul : hasNul path = false
  tip : ∃ parent name, location = parent.base ++ [name] ∧ parent.lost = [] ∧
    name.utf8ByteSize ≤ greatestName ∧ NamesEntry path name ∧
      d.tip path = .ok (parent, .name name false)

/-- The path names a file, which is at a location. -/
structure HasFile (d : Disk) (path : String) (location : Location) : Prop
    extends d.Names path location where
  file : d.tree.kindAt location = some .file

/-- The text of the file at a location, empty if there is none. -/
def textAt (d : Disk) (location : Location) : String :=
  String.ofList (Text.decode ((d.tree.get? location).elim [] Node.data))

theorem Names.of_keeps {d d' : Disk} {path : String} {location : Location}
    (hnames : d.Names path location) (hkeeps : d.tree.KeepsWays d'.tree) (hcwd : d'.cwd = d.cwd) :
    d'.Names path location := by
  obtain ⟨hnul, parent, name, hlocation, hlost, hshort, hpath, htip⟩ := hnames
  exact ⟨hnul, parent, name, hlocation, hlost, hshort, hpath,
    tip_of_keeps hkeeps hcwd htip⟩

/-- The location that a path names ends in the last name of the path. -/
theorem Names.getLast? {d : Disk} {path name : String} {location : Location}
    (hnames : d.Names path location) (hpath : NamesEntry path name) :
    location.getLast? = some name := by
  obtain ⟨-, parent, last, rfl, -, -, hlast, -⟩ := hnames
  rw [List.getLast?_concat, ← hlast.last, hpath.last]

/-- What is at the location that a path names, as a look-up by the path sees it. -/
theorem Names.locate {d : Disk} {path : String} {location : Location}
    (hnames : d.Names path location)
    (hfile : d.tree.kindAt location = some .file ∨ d.tree.kindAt location = none) (follow : Bool) :
    ∃ parent name, location = parent.base ++ [name] ∧ parent.lost = [] ∧
      d.locate follow path =
        match d.tree.get? location with
        | some node => .ok (.leaf parent name node)
        | none => .ok (.vacant parent name) := by
  obtain ⟨-, parent, name, rfl, hlost, hshort, hpath, htip⟩ := hnames
  obtain ⟨links, hlocate⟩ := locate_of_tip hpath htip
  refine ⟨parent, name, rfl, hlost, ?_⟩
  rw [hlocate, if_neg (Nat.not_lt.mpr hshort), Place.lookup_entries d.tree hlost]
  rcases hfile with hfile | hnone
  · obtain ⟨node, hnode, hkind⟩ := Option.map_eq_some_iff.mp hfile
    rw [hnode]
    cases node with
    | file data executable modified => rfl
    | _ => simp [Node.kind] at hkind
  · rw [Node.kindAt, Option.map_eq_none_iff] at hnone
    rw [hnone]
    rfl

/-- Reading by a path gives the text at the location that it names. -/
theorem Names.read {d : Disk} {path : String} {location : Location}
    (hnames : d.Names path location)
    (hfile : d.tree.kindAt location = some .file ∨ d.tree.kindAt location = none) :
    d.read path =
      match d.tree.get? location with
      | some node => .ok node.data
      | none => .error .notFound := by
  obtain ⟨parent, name, -, -, hlocate⟩ := hnames.locate hfile true
  unfold Disk.read status
  rw [hlocate]
  rcases hfile with hfile | hnone
  · obtain ⟨node, hnode, hkind⟩ := Option.map_eq_some_iff.mp hfile
    rw [hnode]
    cases node with
    | file data executable modified => rfl
    | _ => simp [Node.kind] at hkind
  · rw [Node.kindAt, Option.map_eq_none_iff] at hnone
    rw [hnone]
    rfl

theorem Names.kindOf {d : Disk} {path : String} {location : Location}
    (hnames : d.Names path location)
    (hfile : d.tree.kindAt location = some .file ∨ d.tree.kindAt location = none) (follow : Bool) :
    d.kindOf follow path = d.tree.kindAt location := by
  obtain ⟨parent, name, -, -, hlocate⟩ := hnames.locate hfile follow
  rw [kindOf_eq d hnames.no_nul, hlocate, Node.kindAt]
  cases d.tree.get? location <;> rfl

end Disk

theorem Act.run_readText {κ : Type} {m : Machine κ} {path : String} {location : Location}
    (hnames : m.disk.Names path location)
    (hfile : m.disk.tree.kindAt location = some .file ∨ m.disk.tree.kindAt location = none) :
    (Act.readText path : Act κ String).run m = (.ok (m.disk.textAt location), m) := by
  unfold Act.readText
  rw [run_bind, run_get]
  dsimp only
  rw [hnames.read hfile, Disk.textAt]
  cases m.disk.tree.get? location <;> rfl

/-- Where a path leads to nothing, nothing is removed by it. -/
theorem rm_of_nothing {d : Disk} {path : String}
    (hnothing : ∀ follow, d.kindOf follow path = none) :
    stateAfter (DiskM.rm path false) d = d := by
  have hfile : d.isFile path = false := by
    rw [Bool.eq_false_iff, ne_eq, Disk.isFile_iff, hnothing]
    simp
  have hlink : d.isLink path = false := by
    rw [Bool.eq_false_iff, ne_eq, Disk.isLink_iff, hnothing]
    simp
  have hdir : d.isDirectory path = false := by
    rw [Bool.eq_false_iff, ne_eq, Disk.isDirectory_iff, hnothing]
    simp
  rw [stateAfter_rm, stateAfter_removeAny, hfile, hlink, hdir]
  rfl

/-- Removing by a path takes out the file at the location that it names, and nothing else. -/
theorem rm_named {d : Disk} {path : String} {location : Location}
    (hnames : d.Names path location)
    (hfile : d.tree.kindAt location = some .file ∨ d.tree.kindAt location = none) :
    let d' := stateAfter (DiskM.rm path false) d
    d'.tree.kindAt location = none ∧ d'.cwd = d.cwd ∧ d.tree.KeepsWays d'.tree := by
  rcases hfile with hfile | hnone
  · have hnamed : d.isFile path = true := by
      rw [Disk.isFile_iff, hnames.kindOf (Or.inl hfile)]
      exact hfile
    obtain ⟨hnul, parent, name, rfl, -, -, hpath, htip⟩ := hnames
    obtain ⟨other, d', hother, hunlink⟩ := Disk.exists_unlink hpath (Or.inl hnamed)
    obtain ⟨third, found, hthird, -, htree, hcwd, -⟩ := Disk.unlink_inv hunlink
    rw [htip] at hthird
    simp only [Except.ok.injEq, Prod.mk.injEq, Tip.name.injEq, and_true] at hthird
    obtain ⟨rfl, rfl⟩ := hthird
    have hafter : stateAfter (DiskM.rm path false) d = d' := by
      rw [stateAfter_rm, stateAfter_removeAny, if_pos (by simp [hnamed]), stateAfter_change, hnul,
        hunlink]
      rfl
    dsimp only
    rw [hafter, htree, hcwd]
    refine ⟨?_, rfl, ?_⟩
    · rw [Node.kindAt_drop, if_pos (List.prefix_refl _)]
    · intro location kind hway hkind
      rw [Node.kindAt_drop, if_neg]
      · exact hkind
      · rintro ⟨rest, rfl⟩
        cases rest with
        | nil =>
            rw [List.append_nil, hfile, Option.some.injEq] at hkind
            subst kind
            exact hway
        | cons key rest =>
            have habove := kindAt_directory_of_nonempty hkind
            simp [hfile] at habove
  · have hafter : stateAfter (DiskM.rm path false) d = d := by
      refine rm_of_nothing fun follow => ?_
      rw [hnames.kindOf (Or.inr hnone)]
      exact hnone
    dsimp only
    rw [hafter]
    exact ⟨hnone, rfl, Node.KeepsWays.refl _⟩

end BuildRunner
