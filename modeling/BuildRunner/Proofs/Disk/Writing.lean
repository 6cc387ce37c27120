import BuildRunner.Proofs.Disk.Opening

/-!
# Writing to open files

A file that was made for a program takes what is written to it, one piece behind the other.  It is
open only once, so what is written to other open files does not reach it.
-/

namespace BuildRunner

open Text

namespace Node

/-- Giving bytes to another location leaves a file as it is. -/
theorem get?_modify_withData {tree : Node} {location other : Location} {bytes data : Bytes}
    {executable : Bool} {modified : Option Int}
    (hfile : tree.get? location = some (.file bytes executable modified)) (hne : other ≠ location) :
    (tree.modify (withData data) other).get? location =
      some (.file bytes executable modified) := by
  by_cases hbehind : other <+: location
  · obtain ⟨rest, rfl⟩ := hbehind
    rw [get?_append] at hfile
    rw [get?_modify_append]
    -- what is above a file is a directory, which has no bytes
    obtain ⟨node, hnode, hrest⟩ := Option.bind_eq_some_iff.mp hfile
    rw [hnode, Option.bind_some]
    cases node with
    | dir es modified => exact hrest
    | _ =>
        cases rest with
        | nil => exact absurd (List.append_nil other).symm hne
        | cons name rest => simp [get?, entries] at hrest
  · by_cases habove : location <+: other
    · obtain ⟨rest, rfl⟩ := habove
      rw [get?_modify_above, hfile]
      cases rest with
      | nil => exact absurd (List.append_nil location) hne
      | cons name rest => rfl
    · rw [get?_modify_apart _ hbehind habove, hfile]

end Node

theorem overwrite_end (old new : Bytes) :
    Disk.overwrite old old.length new = old ++ new := by
  simp [Disk.overwrite]

namespace Disk

/-- An open file stands at its end, with the bytes that were written to it, and it is open only
once. -/
structure Takes (d : Disk) (index : Nat) (location : Location) (bytes : Bytes) : Prop where
  file : d.files[index]? = some ⟨some location, bytes.length, false⟩
  node : ∃ executable modified, d.tree.get? location = some (.file bytes executable modified)
  alone : ∀ other file, d.files[other]? = some file → file.location = some location →
    other = index

variable {d d' : Disk} {path : String} {index : Nat} {location : Location} {bytes : Bytes}

theorem Takes.textAt (htakes : d.Takes index location bytes) :
    d.textAt location = String.ofList (Text.decode bytes) := by
  obtain ⟨executable, modified, hnode⟩ := htakes.node
  rw [Disk.textAt, hnode]
  rfl

/-- The files keep their locations when one of them moves on. -/
theorem getElem?_set_offset {files : List OpenFile} {place other : Nat} {offset : Nat}
    {moved file : OpenFile} (hmoved : files[place]? = some moved)
    (hfile : (files.set place { moved with offset })[other]? = some file) :
    ∃ before, files[other]? = some before ∧ before.location = file.location := by
  rw [List.getElem?_set] at hfile
  split at hfile
  · next hplace =>
      subst hplace
      split at hfile
      · cases hfile
        exact ⟨moved, hmoved, rfl⟩
      · cases hfile
  · exact ⟨file, hfile, rfl⟩

/-- What is written is put behind what is there. -/
theorem Takes.write (htakes : d.Takes index location bytes) (more : Bytes) :
    (d.write index more).Takes index location (bytes ++ more) := by
  obtain ⟨hfile, ⟨executable, modified, hnode⟩, halone⟩ := htakes
  have hwrite : d.write index more = { d with
      tree := d.tree.modify (Node.withData (bytes ++ more)) location
      files := d.files.set index ⟨some location, bytes.length + more.length, false⟩ } := by
    unfold Disk.write
    rw [hfile]
    dsimp only
    rw [hnode, if_neg Bool.false_ne_true, Option.elim_some, Node.data, overwrite_end]
  have hlt := (List.getElem?_eq_some_iff.mp hfile).1
  rw [hwrite]
  refine ⟨?_, ⟨executable, none, ?_⟩, fun other file hother hlocation => ?_⟩
  · dsimp only
    rw [List.getElem?_set_self hlt, List.length_append]
  · have hself := Node.get?_modify_append (Node.withData (bytes ++ more)) location [] d.tree
    rw [List.append_nil, hnode] at hself
    exact hself
  · obtain ⟨before, hbefore, hsame⟩ := getElem?_set_offset hfile hother
    exact halone other before hbefore (hsame.trans hlocation)

/-- What is written to another open file does not reach it. -/
theorem Takes.write_other (htakes : d.Takes index location bytes) {other : Nat}
    (hother : other ≠ index) (more : Bytes) : (d.write other more).Takes index location bytes := by
  unfold Disk.write
  split
  · exact htakes
  · next moved hmoved =>
      split
      · exact htakes
      · next place hplace =>
          obtain ⟨hfile, ⟨executable, modified, hnode⟩, halone⟩ := htakes
          have hapart : place ≠ location := by
            rintro rfl
            exact hother (halone other moved hmoved hplace)
          refine ⟨?_, ⟨executable, modified, Node.get?_modify_withData hnode hapart⟩, ?_⟩
          · rw [List.getElem?_set_ne hother]
            exact hfile
          · intro third file hthird hlocation
            obtain ⟨before, hbefore, hsame⟩ := getElem?_set_offset hmoved hthird
            exact halone third before hbefore (hsame.trans hlocation)

/-! ## Files that are made -/

section

variable (hnames : d.Names path location) (hfree : d.tree.kindAt location = none)
  (hopen : d.openFile false path = .ok (d', index))

include hnames hfree hopen

/-- A file that is made by opening it is empty. -/
theorem takes_of_openFile (hparent : d.tree.kindAt location.dropLast = some .directory)
    (hunused : ∀ file ∈ d.files, file.location ≠ some location) : d'.Takes index location [] := by
  obtain ⟨base, name, rfl, hmade⟩ := hnames.openFile_of_free hfree false
  rw [hmade] at hopen
  cases hopen
  rw [List.dropLast_concat] at hparent
  refine ⟨List.getElem?_concat_length, ⟨false, none, ?_⟩, fun other file hother hlocation => ?_⟩
  · have hbelow : ¬base ++ [name] <+: base := by
      intro hprefix
      have hlength := hprefix.length_le
      simp at hlength
    rw [Node.get?_put d.tree base name rfl hfree hbelow, if_pos ⟨rfl, hparent⟩]
  · dsimp only at hother
    rw [List.getElem?_append] at hother
    split at hother
    · exact absurd hlocation (hunused file (List.mem_of_getElem? hother))
    · next hge =>
        have hlt := (List.getElem?_eq_some_iff.mp hother).1
        simp at hlt
        omega

/-- Making another file leaves it alone. -/
theorem Takes.openFile {first : Nat} {place : Location} (htakes : d.Takes first place bytes)
    (hne : location ≠ place) : d'.Takes first place bytes := by
  obtain ⟨base, name, rfl, hmade⟩ := hnames.openFile_of_free hfree false
  rw [hmade] at hopen
  cases hopen
  obtain ⟨hfile, ⟨executable, modified, hnode⟩, halone⟩ := htakes
  have hlt := (List.getElem?_eq_some_iff.mp hfile).1
  refine ⟨?_, ⟨executable, modified, ?_⟩, fun other file hother hlocation => ?_⟩
  · dsimp only
    rw [List.getElem?_append_left hlt]
    exact hfile
  · dsimp only
    by_cases hbelow : place <+: base
    · -- a file has no entries to put one into
      obtain ⟨rest, rfl⟩ := hbelow
      rw [Node.put, Node.get?_modify_above, hnode]
      cases rest with
      | _ => rfl
    · rw [Node.get?_put d.tree base name rfl hfree hbelow, if_neg fun h => hne h.1.symm]
      exact hnode
  · dsimp only at hother
    rw [List.getElem?_append] at hother
    split at hother
    · exact halone other file hother hlocation
    · next hge =>
        have hlt := (List.getElem?_eq_some_iff.mp hother).1
        simp only [List.length_cons, List.length_nil] at hlt
        obtain rfl : other = d.files.length := by omega
        rw [Nat.sub_self] at hother
        cases hother
        exact absurd (Option.some.inj hlocation) hne

end

/-- Nothing is at a location, but its directory is there and no open file is at it. -/
structure IsSpare (d : Disk) (location : Location) : Prop where
  free : d.tree.kindAt location = none
  parent : d.tree.kindAt location.dropLast = some .directory
  unused : ∀ file ∈ d.files, file.location ≠ some location

/-- Two files can be made and opened, one after the other. -/
theorem exists_openFile_pair {out err : String} {p q : Location} (hout : d.Names out p)
    (hfirst : d.IsSpare p) (herr : d.Names err q) (hsecond : d.IsSpare q) (hne : p ≠ q) :
    ∃ d₁ d', d.openFile false out = .ok (d₁, d.files.length) ∧
      d₁.openFile false err = .ok (d', d.files.length + 1) ∧
        d'.Takes d.files.length p [] ∧ d'.Takes (d.files.length + 1) q [] := by
  obtain ⟨d₁, index, hopen⟩ := hout.exists_openFile (Or.inr hfirst.free) false
  obtain ⟨rfl, hlength, hopens⟩ := openFile_inv hopen
  have htakes := takes_of_openFile hout hfirst.free hopen hfirst.parent hfirst.unused
  have hnames := herr.of_keeps hopens.tree.keepsWays hopens.current
  obtain ⟨base, name, hp, hmade⟩ := hout.openFile_of_free hfirst.free false
  have hspare : d₁.IsSpare q := by
    refine ⟨?_, hopens.tree.keepsWays _ .directory trivial hsecond.parent, fun file hfile => ?_⟩
    · rw [hmade] at hopen
      cases hopen
      dsimp only
      rw [Node.kindAt_put d.tree base name rfl (hp ▸ hfirst.free), if_neg]
      · exact hsecond.free
      · exact fun h => hne (hp.trans h.1.symm)
    · rw [hmade] at hopen
      cases hopen
      rcases List.mem_append.mp hfile with hfile | hfile
      · exact hsecond.unused file hfile
      · rw [List.mem_singleton.mp hfile]
        exact fun h => hne (Option.some.inj h)
  obtain ⟨d', index, hopen'⟩ := hnames.exists_openFile (Or.inr hspare.free) false
  obtain ⟨hindex, -, -⟩ := openFile_inv hopen'
  rw [hlength] at hindex
  subst hindex
  exact ⟨d₁, d', hopen, hopen', htakes.openFile hnames hspare.free hopen' (Ne.symm hne),
    takes_of_openFile hnames hspare.free hopen' hspare.parent hspare.unused⟩

end Disk

end BuildRunner
