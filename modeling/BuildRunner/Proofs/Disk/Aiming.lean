import BuildRunner.Proofs.Disk.Growing

/-!
# Where a path goes

A path is walked down as far as it leads.  Where the next name is missing, the directories from there
on can be made one in the other, so that the path aims at a location although nothing is there.
Where something else is in the way, nothing can be made on the way of the path at all.
-/

namespace BuildRunner

/-! ## Walking as far as a path leads -/

/-- The walk down a list of names as far as it goes, and the names that are left. -/
def reach (tree : Node) : (links : Nat) → Place → List String → Place × List String
  | _, place, [] => (place, [])
  | links, place, name :: rest =>
    match enter tree links place [name] with
    | .ok (next, left) => reach tree left next rest
    | .error _ => (place, name :: rest)

section

variable {tree : Node} {links left : Nat} {place next : Place}

theorem enter_cons (tree : Node) (links : Nat) (place : Place) (name : String)
    (rest : List String) :
    enter tree links place (name :: rest) =
      (enter tree links place [name]).bind fun found => enter tree found.2 found.1 rest :=
  enter_append tree links place [name] rest

/-- Where names are entered, none of them is missing. -/
theorem kindAt_ne_none_of_enter {front other : List String} {name : String} {parent : Location}
    {found : Place × Nat} {last : Nat} (hfront : enter tree links place front = .ok found)
    (hother : other ++ [name] <+: front)
    (henter : enter tree links place other = .ok (⟨parent, []⟩, last)) (hdot : name ≠ ".")
    (hdotdot : name ≠ "..") : tree.kindAt (parent ++ [name]) ≠ none := by
  intro hnone
  obtain ⟨rest, rfl⟩ := hother
  have hkind : (⟨parent, []⟩ : Place).kindOf tree name = none := by
    rw [Place.kindOf_eq, if_pos rfl, hnone]
  rw [List.append_assoc, enter_append, henter, List.singleton_append] at hfront
  simp only [Except.bind] at hfront
  rw [enter_cons, enter_singleton, if_neg hdot, if_neg hdotdot, hkind] at hfront
  split at hfront
  · cases hfront
  · cases hfront

theorem reach_append {front : List String}
    (hfront : enter tree links place front = .ok (next, left)) (rest : List String) :
    reach tree links place (front ++ rest) = reach tree left next rest := by
  induction front generalizing links place with
  | nil =>
      rw [enter_nil, Except.ok.injEq, Prod.mk.injEq] at hfront
      obtain ⟨rfl, rfl⟩ := hfront
      rfl
  | cons name front ih =>
      rw [enter_cons] at hfront
      rw [List.cons_append, reach]
      cases hname : enter tree links place [name] with
      | error code => simp [hname, Except.bind] at hfront
      | ok found =>
          rw [hname] at hfront
          exact ih hfront

theorem reach_of_enter {names : List String}
    (hnames : enter tree links place names = .ok (next, left)) :
    reach tree links place names = (next, []) := by
  have hreach := reach_append hnames []
  rw [List.append_nil] at hreach
  rw [hreach, reach]

/-- The names before those that are left are entered, and the first that is left is not. -/
theorem exists_front_of_reach (tree : Node) (links : Nat) (place : Place) (names : List String) :
    ∃ front left, names = front ++ (reach tree links place names).2 ∧
      enter tree links place front = .ok ((reach tree links place names).1, left) ∧
        ∀ name rest, (reach tree links place names).2 = name :: rest →
          ∃ code, enter tree left (reach tree links place names).1 [name] = .error code := by
  induction names generalizing links place with
  | nil =>
      refine ⟨[], links, rfl, enter_nil _ _ _, ?_⟩
      rintro name rest ⟨⟩
  | cons name names ih =>
      rw [reach]
      cases hname : enter tree links place [name] with
      | error code =>
          refine ⟨[], links, rfl, enter_nil _ _ _, ?_⟩
          rintro other rest ⟨⟩
          exact ⟨code, hname⟩
      | ok found =>
          obtain ⟨next, left⟩ := found
          obtain ⟨front, last, hnames, hfront, hstop⟩ := ih left next
          refine ⟨name :: front, last, by rw [List.cons_append, ← hnames], ?_, hstop⟩
          rw [enter_cons, hname]
          exact hfront

/-- Where the look-up gets stuck at a name, only names up to there are entered. -/
theorem prefix_of_stuck {front rest other : List String} {name last : String} {code : Errno}
    {found : Place × Nat} (hfront : enter tree links place front = .ok (next, left))
    (hstop : enter tree left next [name] = .error code)
    (hinit : other ++ [last] <+: front ++ name :: rest)
    (hother : enter tree links place other = .ok found) :
    other ++ [last] <+: front ∨ (other = front ∧ last = name) := by
  rcases List.prefix_or_prefix_of_prefix hinit (List.prefix_append _ _) with
    hbefore | ⟨way, hway⟩
  · exact Or.inl hbefore
  · rcases List.eq_nil_or_concat way with rfl | ⟨init, final, rfl⟩
    · rw [List.append_nil] at hway
      exact Or.inl (hway ▸ List.prefix_refl _)
    · rw [List.concat_eq_append, ← List.append_assoc] at hway
      obtain ⟨rfl, -⟩ := List.append_inj' hway rfl
      rw [List.append_assoc, List.prefix_append_right_inj] at hinit
      cases init with
      | nil =>
          rw [List.nil_append, List.cons_prefix_cons] at hinit
          exact Or.inr ⟨List.append_nil _, hinit.1⟩
      | cons first init =>
          rw [List.cons_append, List.cons_prefix_cons] at hinit
          obtain ⟨rfl, -⟩ := hinit
          rw [enter_append, hfront] at hother
          simp only [Except.bind] at hother
          rw [enter_cons, hstop] at hother
          cases hother

end

/-! ## Locations by names -/

/-- The location of a name below a directory. -/
def Location.step (base : Location) (name : String) : Location :=
  if name = "." then base else if name = ".." then base.dropLast else base ++ [name]

/-- The location of a list of names below a directory. -/
def Location.along (base : Location) (names : List String) : Location := names.foldl step base

namespace Location

theorem along_nil (base : Location) : base.along [] = base := rfl

theorem along_append (base : Location) (front rest : List String) :
    base.along (front ++ rest) = (base.along front).along rest := List.foldl_append

theorem along_cons (base : Location) (name : String) (rest : List String) :
    base.along (name :: rest) = (base.step name).along rest := rfl

theorem prefix_step {base : Location} {name : String} (hname : name ≠ "..") :
    base <+: base.step name := by
  rw [step, if_neg hname]
  split
  · exact List.prefix_refl _
  · exact List.prefix_append _ _

/-- Names that do not go up lead further down. -/
theorem prefix_along {base : Location} {names : List String} (hnames : ".." ∉ names) :
    base <+: base.along names := by
  induction names generalizing base with
  | nil => exact List.prefix_refl _
  | cons name rest ih =>
      rw [List.mem_cons, not_or] at hnames
      exact (prefix_step (Ne.symm hnames.1)).trans (ih hnames.2)

end Location

/-- The location that a path names, be it that directories on the way are still to be made. -/
def Disk.aim (d : Disk) (path : String) : Location :=
  let names := pathNames path
  let found := reach d.tree linkLimit (startPlace d.cwd path) names.dropLast
  found.1.base.along (found.2 ++ names.getLast?.toList)

/-- The path goes up behind a directory that is missing. -/
def Disk.GoesUp (d : Disk) (path : String) : Prop :=
  let found := reach d.tree linkLimit (startPlace d.cwd path) (pathNames path)
  ".." ∈ found.2 ∧ ∀ name ∈ found.2.head?, found.1.kindOf d.tree name = none

/-! ## Ways that are clear -/

/-- The names lead down, and nothing but directories stands on their way. -/
structure Node.IsClear (tree : Node) (base : Location) (names : List String) : Prop where
  downward : ".." ∉ names
  clear : ∀ front, front <+: names →
    tree.kindAt (base.along front) = none ∨ tree.kindAt (base.along front) = some .directory

namespace Node.IsClear

variable {tree : Node} {base : Location} {name : String} {rest : List String}

theorem head (hclear : tree.IsClear base (name :: rest)) : name ≠ ".." := by
  rintro rfl
  exact hclear.downward List.mem_cons_self

theorem tail (hclear : tree.IsClear base (name :: rest)) : tree.IsClear (base.step name) rest where
  downward := fun hmem => hclear.downward (List.mem_cons_of_mem _ hmem)
  clear := fun front hfront =>
    hclear.clear (name :: front) (List.cons_prefix_cons.mpr ⟨rfl, hfront⟩)

theorem of_front {front : List String} (hclear : tree.IsClear base (front ++ rest)) :
    tree.IsClear base front where
  downward := fun hmem => hclear.downward (List.mem_append_left _ hmem)
  clear := fun other hother => hclear.clear other (hother.trans (List.prefix_append _ _))

/-- A way that is clear leads where its names say. -/
theorem place_of_enter {names : List String} (hclear : tree.IsClear base names)
    {links left : Nat} {place : Place}
    (henter : enter tree links ⟨base, []⟩ names = .ok (place, left)) :
    place = ⟨base.along names, []⟩ := by
  induction names generalizing base links with
  | nil =>
      rw [enter_nil, Except.ok.injEq, Prod.mk.injEq] at henter
      exact henter.1.symm
  | cons name rest ih =>
      rw [enter_cons, enter_singleton] at henter
      rw [Location.along_cons]
      by_cases hdot : name = "."
      · rw [if_pos hdot] at henter
        have hstep : base.step name = base := by rw [Location.step, if_pos hdot]
        rw [hstep]
        exact ih (hstep ▸ hclear.tail) henter
      · have hstep : base.step name = base ++ [name] := by
          rw [Location.step, if_neg hdot, if_neg hclear.head]
        have hkind : (⟨base, []⟩ : Place).kindOf tree name = tree.kindAt (base ++ [name]) := by
          rw [Place.kindOf_eq, if_pos rfl]
        have hhere := hclear.clear [name] (by simp)
        rw [Location.along_cons, hstep] at hhere
        rw [if_neg hdot, if_neg hclear.head] at henter
        split at henter
        · cases henter
        · rw [hkind] at henter
          rcases hhere with hnone | hdirectory
          · rw [Location.along_nil] at hnone
            rw [hnone] at henter
            cases henter
          · rw [Location.along_nil] at hdirectory
            rw [hdirectory] at henter
            rw [hstep]
            exact ih (hstep ▸ hclear.tail) henter

/-- A way that ends in a directory is entered, as long as its names are not too long. -/
theorem enter_of_directory {names : List String} (hnames : ".." ∉ names)
    (hdirectory : tree.kindAt (base.along names) = some .directory)
    (hshort : ∀ name ∈ base.along names, name.utf8ByteSize ≤ greatestName) (links : Nat) :
    enter tree links ⟨base, []⟩ names = .ok (⟨base.along names, []⟩, links) := by
  induction names generalizing base with
  | nil => exact enter_nil _ _ _
  | cons name rest ih =>
      rw [List.mem_cons, not_or] at hnames
      rw [Location.along_cons] at hdirectory hshort ⊢
      obtain ⟨way, hway⟩ : base.step name <+: (base.step name).along rest :=
        Location.prefix_along hnames.2
      have hrest := ih hnames.2 hdirectory hshort
      rw [← hway] at hdirectory hshort
      rw [enter_cons, enter_singleton]
      by_cases hdot : name = "."
      · rw [if_pos hdot]
        rw [Location.step, if_pos hdot] at hrest ⊢
        exact hrest
      · have hstep : base.step name = base ++ [name] := by
          rw [Location.step, if_neg hdot, if_neg (Ne.symm hnames.1)]
        have hkind : (⟨base, []⟩ : Place).kindOf tree name = some .directory := by
          rw [Place.kindOf_eq, if_pos rfl, ← hstep]
          exact kindAt_directory_of_prefix hdirectory
        have hlong : ¬greatestName < name.utf8ByteSize :=
          Nat.not_lt.mpr (hshort name (by simp [hstep]))
        rw [if_neg hdot, if_neg (Ne.symm hnames.1), if_neg hlong, hkind]
        rw [hstep] at hrest ⊢
        exact hrest

/-- Nothing is where names lead on from one that is missing. -/
theorem kindAt_along_of_vacant (hdot : name ≠ ".") (hnames : ".." ∉ name :: rest)
    (hvacant : tree.kindAt (base ++ [name]) = none) :
    tree.kindAt (base.along (name :: rest)) = none := by
  rw [List.mem_cons, not_or] at hnames
  refine Node.kindAt_eq_none_of_front ?_ hvacant
  rw [Location.along_cons, Location.step, if_neg hdot, if_neg (Ne.symm hnames.1)]
  exact Location.prefix_along hnames.2

/-- Nothing is in the way of names that lead on from one that is missing. -/
theorem of_vacant (hbase : tree.kindAt base = some .directory) (hdot : name ≠ ".")
    (hnames : ".." ∉ name :: rest) (hvacant : tree.kindAt (base ++ [name]) = none) :
    tree.IsClear base (name :: rest) where
  downward := hnames
  clear := by
    intro front hfront
    cases front with
    | nil => exact Or.inr hbase
    | cons first front =>
        have hdownward : ".." ∉ first :: front := fun hmem => hnames (hfront.subset hmem)
        obtain ⟨rfl, -⟩ := List.cons_prefix_cons.mp hfront
        exact Or.inl (kindAt_along_of_vacant hdot hdownward hvacant)

end Node.IsClear

/-! ## Paths that aim at a location, and paths with something in the way -/

namespace Disk

/-- The path leads into a directory of the tree, and on to a location that is a directory or
missing. -/
structure Aims (d : Disk) (path : String) (base : Location) : Prop where
  ne_empty : path ≠ ""
  way : ∃ front rest start left, pathNames path = front ++ rest ∧
    enter d.tree linkLimit (startPlace d.cwd path) front = .ok (⟨start, []⟩, left) ∧
      d.tree.IsClear start rest ∧ base = start.along rest

/-- No directory can be made at the path or on its way. -/
def NoRoom (d : Disk) (path : String) : Prop :=
  ∀ front name parent left, front ++ [name] <+: pathNames path →
    enter d.tree linkLimit (startPlace d.cwd path) front = .ok (⟨parent, []⟩, left) →
      name ≠ "." → name ≠ ".." → d.tree.kindAt (parent ++ [name]) ≠ none

variable {d : Disk} {path : String}

/-- The location of an entry is what its path aims at. -/
theorem aim_of_tip {parent : Place} {name : String} {slash : Bool}
    (htip : d.tip path = .ok (parent, .name name slash)) : d.aim path = parent.base ++ [name] := by
  obtain ⟨-, hlast, left, henter⟩ := tip_eq_ok_iff.mp htip
  obtain ⟨hname, hdot, hdotdot, -⟩ := lastTip_eq_name_iff.mp hlast
  rw [aim, reach_of_enter henter, hname]
  rw [Option.toList_some, List.nil_append, Location.along_cons, Location.along_nil, Location.step,
    if_neg hdot, if_neg hdotdot]

/-- What is left of a path behind a missing directory is walked along by its names. -/
theorem aim_of_reach {front rest : List String} {name : String} {place : Place} {left : Nat}
    (hnames : pathNames path = front ++ name :: rest)
    (hfront : enter d.tree linkLimit (startPlace d.cwd path) front = .ok (place, left))
    (hstop : ∃ code, enter d.tree left place [name] = .error code) :
    d.aim path = place.base.along (name :: rest) := by
  obtain ⟨code, hstop⟩ := hstop
  have hstuck : ∀ rest, reach d.tree linkLimit (startPlace d.cwd path) (front ++ name :: rest) =
      (place, name :: rest) := by
    intro rest
    rw [reach_append hfront, reach, hstop]
  rw [aim, hnames]
  rcases List.eq_nil_or_concat rest with rfl | ⟨init, last, rfl⟩
  · rw [List.dropLast_concat, List.getLast?_concat, reach_of_enter hfront]
    rfl
  · have hlast : front ++ name :: init.concat last = (front ++ name :: init) ++ [last] := by simp
    rw [hlast, List.dropLast_concat, List.getLast?_concat, hstuck]
    simp

/-- A path that does not go up behind what is missing aims at a location that is free, or something
is in its way. -/
theorem aims_or_noRoom (hcwd : d.tree.kindAt d.cwd.base = some .directory) (hup : ¬d.GoesUp path) :
    (d.Aims path (d.aim path) ∧ d.tree.kindAt (d.aim path) = none) ∨ d.NoRoom path := by
  obtain ⟨front, left, hnames, hfront, hstop⟩ :=
    exists_front_of_reach d.tree linkLimit (startPlace d.cwd path) (pathNames path)
  have hplace := kindAt_of_enter (kindAt_startPlace path hcwd) hfront
  unfold GoesUp at hup
  generalize reach d.tree linkLimit (startPlace d.cwd path) (pathNames path) = found at *
  obtain ⟨⟨base, lost⟩, rest⟩ := found
  dsimp only at hnames hfront hstop hup hplace
  cases rest with
  | nil =>
      rw [List.append_nil] at hnames
      refine Or.inr fun other name parent last hinit henter hdot hdotdot => ?_
      exact kindAt_ne_none_of_enter hfront (hnames ▸ hinit) henter hdot hdotdot
  | cons name rest =>
      obtain ⟨code, hstop⟩ := hstop name rest rfl
      have hdot : name ≠ "." := by
        rintro rfl
        rw [enter_singleton, if_pos rfl] at hstop
        cases hstop
      have hdotdot : name ≠ ".." := by
        rintro rfl
        rw [enter_singleton, if_neg (by decide), if_pos rfl] at hstop
        cases hstop
      by_cases hvacant : lost = [] ∧ d.tree.kindAt (base ++ [name]) = none
      · obtain ⟨rfl, hvacant⟩ := hvacant
        have hkind : (⟨base, []⟩ : Place).kindOf d.tree name = none := by
          rw [Place.kindOf_eq, if_pos rfl, hvacant]
        have hdownward : ".." ∉ name :: rest := fun hmem =>
          hup ⟨hmem, fun other hother => by rwa [← Option.some.inj hother]⟩
        have hne : path ≠ "" := by
          rintro rfl
          exact absurd hnames (by simp [show pathNames "" = [] from rfl])
        have haim := aim_of_reach hnames hfront ⟨code, hstop⟩
        refine Or.inl ⟨⟨hne, front, name :: rest, base, left, hnames, hfront,
          .of_vacant hplace hdot hdownward hvacant, haim⟩, ?_⟩
        rw [haim]
        exact Node.IsClear.kindAt_along_of_vacant hdot hdownward hvacant
      · refine Or.inr fun other last parent now hinit henter hother hupward hnone => ?_
        rw [hnames] at hinit
        rcases prefix_of_stuck hfront hstop hinit henter with hbefore | ⟨rfl, rfl⟩
        · exact kindAt_ne_none_of_enter hfront hbefore henter hother hupward hnone
        · rw [hfront] at henter
          cases henter
          exact hvacant ⟨rfl, hnone⟩

end Disk

end BuildRunner
