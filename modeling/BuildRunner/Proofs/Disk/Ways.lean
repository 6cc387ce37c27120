import BuildRunner.Disk.Basic
import BuildRunner.Proofs.Disk.Tree
import BuildRunner.Proofs.Path.Relative

/-!
# Ways through a tree

A look-up that finds its way is not disturbed as long as the directories and the links on it stay.
In a tree that only lacks entries a look-up either goes the same way or ends in nothing.  The path
of a directory that stands in the tree leads back to it.
-/

namespace BuildRunner

/-! ## Trees that keep ways, and pruned ones -/

/-- Entries that a look-up passes through. -/
def Kind.IsWay : Kind → Prop
  | .directory | .link _ => True
  | _ => False

namespace Node

/-- All directories and links are still there. -/
def KeepsWays (tree tree' : Node) : Prop :=
  ∀ location kind, kind.IsWay → tree.kindAt location = some kind →
    tree'.kindAt location = some kind

/-- Nothing has been added. -/
def Prunes (tree tree' : Node) : Prop :=
  ∀ location, tree'.kindAt location = none ∨ tree'.kindAt location = tree.kindAt location

theorem KeepsWays.refl (tree : Node) : tree.KeepsWays tree := fun _ _ _ h => h

theorem KeepsWays.trans {t u v : Node} (h : t.KeepsWays u) (h' : u.KeepsWays v) :
    t.KeepsWays v := fun location kind hway hkind =>
  h' location kind hway (h location kind hway hkind)

theorem Prunes.refl (tree : Node) : tree.Prunes tree := fun _ => Or.inr rfl

theorem Prunes.trans {t u v : Node} (h : t.Prunes u) (h' : u.Prunes v) : t.Prunes v := by
  intro location
  rcases h' location with hnone | hsame
  · exact Or.inl hnone
  · rw [hsame]
    exact h location

theorem prunes_drop (tree : Node) (parent : Location) (name : String) :
    tree.Prunes (tree.drop parent name) := by
  intro location
  rw [kindAt_drop]
  split
  · exact Or.inl rfl
  · exact Or.inr rfl

theorem prunes_clear (tree : Node) (location : Location) :
    tree.Prunes (tree.modify (mapEntries fun _ => []) location) := by
  intro other
  rw [kindAt_clear]
  split
  · exact Or.inl rfl
  · exact Or.inr rfl

end Node

/-! ## Look-ups by kinds -/

namespace Place

/-- The kind of the entry of a name in a directory. -/
def kindOf (tree : Node) (place : Place) (name : String) : Option Kind :=
  ((place.entries tree).lookup name).map Node.kind

theorem kindOf_eq (tree : Node) (place : Place) (name : String) :
    place.kindOf tree name =
      if place.lost = [] then tree.kindAt (place.base ++ [name]) else none := by
  unfold kindOf entries
  by_cases hlost : place.lost = []
  · rw [if_pos hlost, if_pos (by simp [hlost]), Node.kindAt, Node.get?_append]
    cases tree.get? place.base with
    | none => rfl
    | some node =>
        simp only [Option.elim, Option.bind_some, Node.get?]
        cases node.entries.lookup name <;> rfl
  · rw [if_neg hlost, if_neg (by simpa using hlost)]
    rfl

theorem lookup_entries (tree : Node) {place : Place} (hlost : place.lost = []) (name : String) :
    (place.entries tree).lookup name = tree.get? (place.base ++ [name]) := by
  rw [entries, hlost, if_pos (by rfl), Node.get?_append]
  cases tree.get? place.base with
  | none => rfl
  | some node =>
      simp only [Option.elim, Option.bind_some, Node.get?]
      cases node.entries.lookup name <;> rfl

theorem kindOf_of_keeps {tree tree' : Node} (hkeeps : tree.KeepsWays tree') {place : Place}
    {name : String} {kind : Kind} (hway : kind.IsWay) (hkind : place.kindOf tree name = some kind) :
    place.kindOf tree' name = some kind := by
  rw [kindOf_eq] at hkind ⊢
  split at hkind
  · next hlost =>
      rw [if_pos hlost]
      exact hkeeps _ kind hway hkind
  · simp at hkind

theorem kindOf_of_prunes {tree tree' : Node} (hprunes : tree.Prunes tree') (place : Place)
    (name : String) :
    place.kindOf tree' name = none ∨ place.kindOf tree' name = place.kindOf tree name := by
  rw [kindOf_eq, kindOf_eq]
  split
  · exact hprunes _
  · exact Or.inl rfl

end Place

theorem descend_cons (tree : Node) (place : Place) (name : String) (rest : List String) :
    descend tree place (name :: rest) =
      if name = "." then descend tree place rest
      else if name = ".." then descend tree place.up rest
      else if greatestName < name.utf8ByteSize then .refused .nameTooLong
      else
        match place.kindOf tree name with
        | none => .refused .notFound
        | some .directory => descend tree (place.down name) rest
        | some (.link target) => .link place target rest
        | some _ => .refused .notDirectory := by
  rw [descend, Place.kindOf]
  rcases (place.entries tree).lookup name with _ | (_ | _ | _ | _ | _) <;> rfl

theorem descend_of_keeps {tree tree' : Node} (hkeeps : tree.KeepsWays tree')
    {place : Place} {names : List String}
    (hfound : ∀ code, descend tree place names ≠ .refused code) :
    descend tree' place names = descend tree place names := by
  induction names generalizing place with
  | nil => rfl
  | cons name rest ih =>
      rw [descend_cons] at hfound
      rw [descend_cons, descend_cons]
      split at hfound
      · next hdot => rw [if_pos hdot, if_pos hdot, ih hfound]
      · next hdot =>
          rw [if_neg hdot, if_neg hdot]
          split at hfound
          · next hdots => rw [if_pos hdots, if_pos hdots, ih hfound]
          · next hdots =>
              rw [if_neg hdots, if_neg hdots]
              split at hfound
              · next hlong => exact absurd rfl (hfound .nameTooLong)
              · next hlong =>
                  rw [if_neg hlong, if_neg hlong]
                  cases hkind : place.kindOf tree name with
                  | none =>
                      rw [hkind] at hfound
                      exact absurd rfl (hfound .notFound)
                  | some kind =>
                      rw [hkind] at hfound
                      cases kind with
                      | directory =>
                          have hway : Kind.IsWay .directory := trivial
                          rw [Place.kindOf_of_keeps hkeeps hway hkind]
                          exact ih hfound
                      | link target =>
                          have hway : Kind.IsWay (.link target) := trivial
                          rw [Place.kindOf_of_keeps hkeeps hway hkind]
                      | _ => exact absurd rfl (hfound .notDirectory)

theorem enter_of_keeps {tree tree' : Node} (hkeeps : tree.KeepsWays tree') {links : Nat}
    {place : Place} {names : List String} {found : Place × Nat}
    (hfound : enter tree links place names = .ok found) :
    enter tree' links place names = .ok found := by
  induction links generalizing place names with
  | zero =>
      unfold enter at hfound ⊢
      cases hdescend : descend tree place names with
      | arrived there =>
          rw [hdescend] at hfound
          rw [descend_of_keeps hkeeps (by simp [hdescend]), hdescend]
          exact hfound
      | refused code => simp [hdescend] at hfound
      | link parent target rest => simp [hdescend] at hfound
  | succ links ih =>
      unfold enter at hfound ⊢
      cases hdescend : descend tree place names with
      | arrived there =>
          rw [hdescend] at hfound
          rw [descend_of_keeps hkeeps (by simp [hdescend]), hdescend]
          exact hfound
      | refused code => simp [hdescend] at hfound
      | link parent target rest =>
          rw [hdescend] at hfound
          rw [descend_of_keeps hkeeps (by simp [hdescend]), hdescend]
          exact ih hfound

theorem descend_of_prunes {tree tree' : Node} (hprunes : tree.Prunes tree') (place : Place)
    (names : List String) :
    descend tree' place names = .refused .notFound ∨
      descend tree' place names = descend tree place names := by
  induction names generalizing place with
  | nil => exact Or.inr rfl
  | cons name rest ih =>
      rw [descend_cons, descend_cons]
      split
      · exact ih place
      · split
        · exact ih place.up
        · split
          · exact Or.inr rfl
          · rcases Place.kindOf_of_prunes hprunes place name with hnone | hsame
            · rw [hnone]
              exact Or.inl rfl
            · rw [hsame]
              rcases place.kindOf tree name with _ | (_ | _ | _ | _ | _)
              · exact Or.inl rfl
              · exact ih (place.down name)
              · exact Or.inr rfl
              · exact Or.inr rfl
              · exact Or.inr rfl
              · exact Or.inr rfl

theorem enter_of_prunes {tree tree' : Node} (hprunes : tree.Prunes tree') (links : Nat)
    (place : Place) (names : List String) :
    enter tree' links place names = .error .notFound ∨
      enter tree' links place names = enter tree links place names := by
  induction links generalizing place names with
  | zero =>
      unfold enter
      rcases descend_of_prunes hprunes place names with hnone | hsame
      · rw [hnone]
        exact Or.inl rfl
      · rw [hsame]
        exact Or.inr rfl
  | succ links ih =>
      unfold enter
      rcases descend_of_prunes hprunes place names with hnone | hsame
      · rw [hnone]
        exact Or.inl rfl
      · rw [hsame]
        cases descend tree place names with
        | arrived there => exact Or.inr rfl
        | refused code => exact Or.inr rfl
        | link parent target rest => exact ih _ _

/-! ## What a path leads to -/

/-- The outcome of the look-up of the last name, by its entry. -/
def lastSpot (follow slash : Bool) (parent : Place) (name : String)
    (go : String → Except Errno Spot) : Option Node → Except Errno Spot
  | none => .ok (.vacant parent name)
  | some (.dir ..) => .ok (.directory (parent.down name))
  | some (.link target) =>
    if follow || slash then go target else .ok (.leaf parent name (.link target))
  | some node => if slash then .error .notDirectory else .ok (.leaf parent name node)

/-- The outcome of a look-up that goes on behind a link. -/
def behindLink (tree : Node) (follow : Bool) (fuel : Nat) (parent : Place) (slash : Bool)
    (target : String) : (links : Nat) → Except Errno Spot
  | 0 => .error .linkLoop
  | links + 1 =>
    locateFrom tree follow fuel links (startPlace parent target) (pathNames target)
      (slash || endsInSlash target)

theorem locateFrom_succ (tree : Node) (follow : Bool) (fuel links : Nat) (place : Place)
    (names : List String) (slash : Bool) :
    locateFrom tree follow (fuel + 1) links place names slash =
      (enter tree links place names.dropLast).bind fun (parent, links) =>
        match names.getLast? with
        | none => .ok (.directory parent)
        | some name =>
          if name = "." then .ok (.directory parent)
          else if name = ".." then .ok (.directory parent.up)
          else if greatestName < name.utf8ByteSize then .error .nameTooLong
          else
            lastSpot follow slash parent name
              (fun target => behindLink tree follow fuel parent slash target links)
              ((parent.entries tree).lookup name) := by
  rw [locateFrom]
  rfl

/-- What is found in a pruned tree was found before, at the same place and of the same kind. -/
def Spot.Remains (before : Except Errno Spot) : Spot → Prop
  | .vacant .. => True
  | .directory place => before = .ok (.directory place)
  | .leaf parent name node =>
    ∃ old, before = .ok (.leaf parent name old) ∧ old.kind = node.kind

theorem remains_of_leaf {slash : Bool} {parent : Place} {name : String} {node node' : Node}
    (hkind : node.kind = node'.kind) {spot : Spot}
    (hfound : (if slash then .error .notDirectory else .ok (.leaf parent name node')) =
      (.ok spot : Except Errno Spot)) :
    spot.Remains (if slash then .error .notDirectory else .ok (.leaf parent name node)) := by
  cases slash with
  | true => simp at hfound
  | false =>
      simp only [Bool.false_eq_true, if_false, Except.ok.injEq] at hfound
      subst spot
      exact ⟨node, rfl, hkind⟩

theorem remains_of_lastSpot {follow slash : Bool} {parent : Place} {name : String}
    {go go' : String → Except Errno Spot} {entry entry' : Option Node}
    (hgo : ∀ target spot, go' target = .ok spot → spot.Remains (go target))
    (hentry : entry'.map Node.kind = none ∨ entry'.map Node.kind = entry.map Node.kind)
    {spot : Spot} (hfound : lastSpot follow slash parent name go' entry' = .ok spot) :
    spot.Remains (lastSpot follow slash parent name go entry) := by
  rcases hentry with hnone | hsame
  · rw [Option.map_eq_none_iff] at hnone
    subst entry'
    simp only [lastSpot, Except.ok.injEq] at hfound
    subst spot
    trivial
  · rcases entry' with _ | node'
    · simp only [lastSpot, Except.ok.injEq] at hfound
      subst spot
      trivial
    · obtain ⟨node, rfl, hkind⟩ := Option.map_eq_some_iff.mp hsame.symm
      cases node' with
      | dir es modified =>
          cases node <;> simp [Node.kind] at hkind
          simp only [lastSpot, Except.ok.injEq] at hfound
          subst spot
          rfl
      | link target =>
          cases node with
          | link old =>
              simp only [Node.kind, Kind.link.injEq] at hkind
              subst old
              simp only [lastSpot] at hfound ⊢
              split at hfound
              · next hfollow =>
                  rw [if_pos hfollow]
                  exact hgo target spot hfound
              · next hfollow =>
                  rw [if_neg hfollow]
                  simp only [Except.ok.injEq] at hfound
                  subst spot
                  exact ⟨_, rfl, rfl⟩
          | _ => simp [Node.kind] at hkind
      | file data executable modified =>
          cases node <;> simp [Node.kind] at hkind
          exact remains_of_leaf (by rfl) hfound
      | pipe =>
          cases node <;> simp [Node.kind] at hkind
          exact remains_of_leaf (by rfl) hfound
      | null =>
          cases node <;> simp [Node.kind] at hkind
          exact remains_of_leaf (by rfl) hfound

theorem locateFrom_of_prunes {tree tree' : Node} (hprunes : tree.Prunes tree') {follow : Bool}
    {fuel links : Nat} {place : Place} {names : List String} {slash : Bool} {spot : Spot}
    (hfound : locateFrom tree' follow fuel links place names slash = .ok spot) :
    spot.Remains (locateFrom tree follow fuel links place names slash) := by
  induction fuel generalizing links place names slash spot with
  | zero => simp [locateFrom] at hfound
  | succ fuel ih =>
      rw [locateFrom_succ] at hfound ⊢
      rcases enter_of_prunes hprunes links place names.dropLast with hnone | hsame
      · simp [hnone, Except.bind] at hfound
      · rw [hsame] at hfound
        cases henter : enter tree links place names.dropLast with
        | error code => simp [henter, Except.bind] at hfound
        | ok found =>
            obtain ⟨parent, left⟩ := found
            rw [henter] at hfound
            simp only [Except.bind] at hfound ⊢
            have hgo : ∀ target spot, behindLink tree' follow fuel parent slash target left =
                .ok spot → spot.Remains (behindLink tree follow fuel parent slash target left) := by
              intro target spot hspot
              cases left with
              | zero => simp [behindLink] at hspot
              | succ left => exact ih hspot
            cases hlast : names.getLast? with
            | none =>
                simp only [hlast, Except.ok.injEq] at hfound
                subst spot
                rfl
            | some name =>
                simp only [hlast] at hfound ⊢
                split_ifs at hfound ⊢ with hdot hdots hlong
                · simp only [Except.ok.injEq] at hfound
                  subst spot
                  rfl
                · simp only [Except.ok.injEq] at hfound
                  subst spot
                  rfl
                · exact remains_of_lastSpot hgo (Place.kindOf_of_prunes hprunes parent name) hfound

theorem leaf_of_lastSpot {follow slash : Bool} {above parent : Place} {last name : String}
    {go : String → Except Errno Spot} {entry : Option Node} {node : Node}
    (hfound : lastSpot follow slash above last go entry = .ok (.leaf parent name node)) :
    node.kind ≠ .directory ∨ ∃ target, go target = .ok (.leaf parent name node) := by
  have hleaf : ∀ {other : Node}, other.kind ≠ .directory →
      (if slash then .error .notDirectory else .ok (.leaf above last other)) =
        (.ok (.leaf parent name node) : Except Errno Spot) → node.kind ≠ .directory := by
    intro other hother heq
    cases slash with
    | true => simp at heq
    | false =>
        simp only [Bool.false_eq_true, if_false, Except.ok.injEq, Spot.leaf.injEq] at heq
        rwa [← heq.2.2]
  cases entry with
  | none => simp [lastSpot] at hfound
  | some entry =>
      cases entry with
      | dir es modified => simp [lastSpot] at hfound
      | link target =>
          simp only [lastSpot] at hfound
          split at hfound
          · exact Or.inr ⟨target, hfound⟩
          · simp only [Except.ok.injEq, Spot.leaf.injEq] at hfound
            rw [← hfound.2.2]
            simp [Node.kind]
      | file data executable modified => exact Or.inl (hleaf (by simp [Node.kind]) hfound)
      | pipe => exact Or.inl (hleaf (by simp [Node.kind]) hfound)
      | null => exact Or.inl (hleaf (by simp [Node.kind]) hfound)

/-- A look-up never ends at a directory as at a leaf. -/
theorem kind_ne_directory_of_locateFrom {tree : Node} {follow : Bool} {fuel links : Nat}
    {place parent : Place} {names : List String} {slash : Bool} {name : String} {node : Node}
    (hfound : locateFrom tree follow fuel links place names slash =
      .ok (.leaf parent name node)) : node.kind ≠ .directory := by
  induction fuel generalizing links place names slash with
  | zero => simp [locateFrom] at hfound
  | succ fuel ih =>
      rw [locateFrom_succ] at hfound
      cases henter : enter tree links place names.dropLast with
      | error code => simp [henter, Except.bind] at hfound
      | ok found =>
          obtain ⟨above, left⟩ := found
          rw [henter] at hfound
          simp only [Except.bind] at hfound
          cases hlast : names.getLast? with
          | none => simp [hlast] at hfound
          | some last =>
              simp only [hlast] at hfound
              split_ifs at hfound
              · simp at hfound
              · simp at hfound
              · rcases leaf_of_lastSpot hfound with hkind | ⟨target, hbehind⟩
                · exact hkind
                · cases left with
                  | zero => simp [behindLink] at hbehind
                  | succ left => exact ih hbehind

/-! ## Paths that are checked first -/

theorem checkPath_of_short {path : String} (hne : path ≠ "")
    (hshort : path.utf8ByteSize < pathLimit) :
    checkPath path = .ok () := by
  have hempty : path.isEmpty = false := by
    rw [← Bool.not_eq_true, String.isEmpty_iff]
    exact hne
  rw [checkPath, hempty, if_neg (by decide), if_neg (Nat.not_le.mpr hshort)]

theorem checkPath_of_long {path : String} (hlong : pathLimit ≤ path.utf8ByteSize) :
    checkPath path = .error .nameTooLong := by
  have hempty : path.isEmpty = false := by
    rw [← Bool.not_eq_true, String.isEmpty_iff]
    rintro rfl
    exact absurd hlong (by decide)
  rw [checkPath, hempty, if_neg (by decide), if_pos hlong]

/-- The last segment of a path as a request for the entry itself sees it. -/
def lastTip (path : String) : Tip :=
  match (pathNames path).getLast? with
  | none => .root
  | some name =>
    if name = "." then .dot
    else if name = ".." then .dotdot
    else .name name (endsInSlash path)

theorem lastTip_eq_name_iff {path name : String} {slash : Bool} :
    lastTip path = .name name slash ↔
      (pathNames path).getLast? = some name ∧ name ≠ "." ∧ name ≠ ".." ∧
        endsInSlash path = slash := by
  unfold lastTip
  cases (pathNames path).getLast? with
  | none => simp
  | some last =>
      dsimp only
      split_ifs with hdot hdotdot
      · simp only [false_iff, Option.some.injEq]
        rintro ⟨rfl, hne, -⟩
        exact hne hdot
      · simp only [false_iff, Option.some.injEq]
        rintro ⟨rfl, -, hne, -⟩
        exact hne hdotdot
      · simp only [Tip.name.injEq, Option.some.injEq]
        constructor
        · rintro ⟨rfl, rfl⟩
          exact ⟨rfl, hdot, hdotdot, rfl⟩
        · rintro ⟨rfl, -, -, rfl⟩
          exact ⟨rfl, rfl⟩

namespace Disk

variable {d : Disk} {path : String}

theorem locate_eq_ok_iff {follow : Bool} {spot : Spot} :
    d.locate follow path = .ok spot ↔
      checkPath path = .ok () ∧
        locateFrom d.tree follow (linkLimit + 1) linkLimit (startPlace d.cwd path) (pathNames path)
          (endsInSlash path) = .ok spot := by
  unfold locate BuildRunner.locate
  cases checkPath path with
  | error code => simp [bind, Except.bind]
  | ok _ => simp [bind, Except.bind]

theorem locate_of_long (hlong : pathLimit ≤ path.utf8ByteSize) (follow : Bool) :
    d.locate follow path = .error .nameTooLong := by
  rw [locate, BuildRunner.locate, checkPath_of_long hlong]
  rfl

theorem tip_eq_lastTip :
    d.tip path = (checkPath path).bind fun _ =>
      (enter d.tree linkLimit (startPlace d.cwd path) (pathNames path).dropLast).bind
        fun found => .ok (found.1, lastTip path) := by
  have hlast : ∀ there : Place,
      (match (pathNames path).getLast? with
        | none => Except.ok (there, Tip.root)
        | some name =>
          if name = "." then .ok (there, .dot)
          else if name = ".." then .ok (there, .dotdot)
          else .ok (there, .name name (endsInSlash path)) : Except Errno (Place × Tip)) =
        .ok (there, lastTip path) := by
    intro there
    unfold lastTip
    cases (pathNames path).getLast? with
    | none => rfl
    | some name =>
        dsimp only
        split_ifs <;> rfl
  simp only [← hlast]
  rfl

theorem tip_eq_ok_iff {parent : Place} {tip : Tip} :
    d.tip path = .ok (parent, tip) ↔
      checkPath path = .ok () ∧ lastTip path = tip ∧
        ∃ left, enter d.tree linkLimit (startPlace d.cwd path) (pathNames path).dropLast =
          .ok (parent, left) := by
  rw [tip_eq_lastTip]
  cases checkPath path with
  | error code => simp [Except.bind]
  | ok _ =>
      cases enter d.tree linkLimit (startPlace d.cwd path) (pathNames path).dropLast with
      | error code => simp [Except.bind]
      | ok found => simp [Except.bind, Prod.ext_iff, and_comm]

end Disk

/-! ## Paths that name an entry -/

/-- A path with a proper name at its end. -/
structure NamesEntry (path : String) (name : String) : Prop where
  last : (pathNames path).getLast? = some name
  ne_dot : name ≠ "."
  ne_dotdot : name ≠ ".."
  no_slash : endsInSlash path = false

namespace Disk

theorem tip_eq (d : Disk) {path name : String} (hpath : NamesEntry path name) :
    d.tip path = (checkPath path).bind fun _ =>
      (enter d.tree linkLimit (startPlace d.cwd path) (pathNames path).dropLast).bind
        fun found => .ok (found.1, .name name false) := by
  rw [tip_eq_lastTip, lastTip_eq_name_iff.mpr
    ⟨hpath.last, hpath.ne_dot, hpath.ne_dotdot, hpath.no_slash⟩]

theorem locate_eq (d : Disk) {path name : String} (hpath : NamesEntry path name) (follow : Bool) :
    d.locate follow path = (checkPath path).bind fun _ =>
      (enter d.tree linkLimit (startPlace d.cwd path) (pathNames path).dropLast).bind
        fun found =>
          if greatestName < name.utf8ByteSize then .error .nameTooLong
          else
            lastSpot follow false found.1 name
              (fun target => behindLink d.tree follow linkLimit found.1 false target found.2)
              ((found.1.entries d.tree).lookup name) := by
  unfold locate BuildRunner.locate
  rw [locateFrom_succ, hpath.last, hpath.no_slash]
  simp only [if_neg hpath.ne_dot, if_neg hpath.ne_dotdot]
  rfl

/-- A path that names an entry either leads nowhere or into a directory with that name. -/
theorem tip_cases (d : Disk) {path name : String} (hpath : NamesEntry path name) :
    (∃ code, d.tip path = .error code ∧ ∀ follow, d.locate follow path = .error code) ∨
      ∃ parent links, d.tip path = .ok (parent, .name name false) ∧
        ∀ follow, d.locate follow path =
          if greatestName < name.utf8ByteSize then .error .nameTooLong
          else
            lastSpot follow false parent name
              (fun target => behindLink d.tree follow linkLimit parent false target links)
              ((parent.entries d.tree).lookup name) := by
  simp only [tip_eq d hpath, locate_eq d hpath]
  cases checkPath path with
  | error code => exact Or.inl ⟨code, rfl, fun _ => rfl⟩
  | ok _ =>
      cases enter d.tree linkLimit (startPlace d.cwd path) (pathNames path).dropLast with
      | error code => exact Or.inl ⟨code, rfl, fun _ => rfl⟩
      | ok found => exact Or.inr ⟨found.1, found.2, rfl, fun _ => rfl⟩

/-- The way to an entry stays as it is where ways are kept. -/
theorem tip_of_keeps {d d' : Disk} (hkeeps : d.tree.KeepsWays d'.tree) (hcwd : d'.cwd = d.cwd)
    {path : String} {parent : Place} {tip : Tip} (htip : d.tip path = .ok (parent, tip)) :
    d'.tip path = .ok (parent, tip) := by
  obtain ⟨hcheck, hlast, left, henter⟩ := tip_eq_ok_iff.mp htip
  refine tip_eq_ok_iff.mpr ⟨hcheck, hlast, left, ?_⟩
  rw [hcwd]
  exact enter_of_keeps hkeeps henter

/-- What a path leads to once entries were taken out is what it led to before. -/
theorem locate_of_prunes {d d' : Disk} (hprunes : d.tree.Prunes d'.tree) {path : String}
    (hstart : startPlace d'.cwd path = startPlace d.cwd path) {follow : Bool} {spot : Spot}
    (hfound : d'.locate follow path = .ok spot) : spot.Remains (d.locate follow path) := by
  obtain ⟨hcheck, hfound⟩ := locate_eq_ok_iff.mp hfound
  rw [hstart] at hfound
  rw [locate, BuildRunner.locate, hcheck]
  exact locateFrom_of_prunes hprunes hfound

theorem kind_ne_directory_of_leaf {d : Disk} {follow : Bool} {path name : String} {parent : Place}
    {node : Node} (hfound : d.locate follow path = .ok (.leaf parent name node)) :
    node.kind ≠ .directory := by
  exact kind_ne_directory_of_locateFrom (locate_eq_ok_iff.mp hfound).2

/-! ## The way to a directory by its own path -/

end Disk

/-- A name that the system accepts. -/
structure IsAccepted (name : String) : Prop extends Path.IsName name.toList where
  no_nul : '\x00' ∉ name.toList
  short : name.utf8ByteSize ≤ greatestName

instance : DecidablePred IsAccepted := fun name =>
  decidable_of_iff
    (Path.IsName name.toList ∧ '\x00' ∉ name.toList ∧ name.utf8ByteSize ≤ greatestName)
    ⟨fun ⟨hname, hnul, hshort⟩ => ⟨hname, hnul, hshort⟩,
      fun haccepted => ⟨haccepted.toIsName, haccepted.no_nul, haccepted.short⟩⟩

theorem toList_intercalate_slash (names : List String) :
    (String.intercalate "/" names).toList = Path.joinSegments (names.map String.toList) := by
  induction names with
  | nil => rfl
  | cons name names ih =>
      cases names with
      | nil => simp [Path.joinSegments]
      | cons next names =>
          rw [String.intercalate_cons_cons, String.toList_append, String.toList_append, ih]
          simp [Path.joinSegments]

/-- A directory that stands in a tree, under names that the system accepts. -/
structure Place.Stands (tree : Node) (place : Place) : Prop where
  here : place.lost = []
  found : tree.kindAt place.base = some .directory
  accepted : ∀ name ∈ place.base, IsAccepted name

theorem Place.path?_eq {place : Place} (hplace : place.lost = []) :
    place.path? = some ("/" ++ String.intercalate "/" place.base) := by
  unfold path?
  rw [if_pos (by simp [hplace])]

theorem pathNames_path {base : Location} (hbase : ∀ name ∈ base, IsAccepted name) :
    pathNames ("/" ++ String.intercalate "/" base) = base := by
  have hparts : ∀ part ∈ base.map String.toList, '/' ∉ part := by
    intro part hpart
    obtain ⟨name, hname, rfl⟩ := List.mem_map.mp hpart
    exact (hbase name hname).slash_free
  have hchars : ("/" ++ String.intercalate "/" base).toList =
      '/' :: Path.joinSegments (base.map String.toList) := by
    rw [String.toList_append, toList_intercalate_slash]
    rfl
  rw [pathNames, hchars, Path.segments_slash_cons, List.filter_cons]
  simp only [List.isEmpty_nil, Bool.not_true, Bool.false_eq_true, if_false]
  cases base with
  | nil => rfl
  | cons first rest =>
      rw [Path.segments_joinSegments (by simp) hparts, List.filter_eq_self.mpr, List.map_map]
      · simp [Function.comp_def]
      · intro part hpart
        obtain ⟨name, hname, rfl⟩ := List.mem_map.mp hpart
        simpa using (hbase name hname).ne_nil

theorem kindAt_directory_of_nonempty {tree : Node} {a b : Location} {name : String} {kind : Kind}
    (hkind : tree.kindAt (a ++ name :: b) = some kind) : tree.kindAt a = some .directory := by
  rw [Node.kindAt_append] at hkind
  rw [Node.kindAt]
  cases hnode : tree.get? a with
  | none => simp [hnode] at hkind
  | some node =>
      rw [hnode, Option.bind_some] at hkind
      by_cases hdir : node.kind = .directory
      · exact congrArg some hdir
      · rw [Node.kindAt_cons_of_kind_ne hdir] at hkind
        simp at hkind

theorem kindAt_directory_of_prefix {tree : Node} {a b : Location}
    (hdir : tree.kindAt (a ++ b) = some .directory) : tree.kindAt a = some .directory := by
  cases b with
  | nil => simpa using hdir
  | cons name b => exact kindAt_directory_of_nonempty hdir

theorem descend_of_directory {tree : Node} {above names : Location}
    (hdir : tree.kindAt (above ++ names) = some .directory)
    (hnames : ∀ name ∈ names, IsAccepted name) :
    descend tree ⟨above, []⟩ names = .arrived ⟨above ++ names, []⟩ := by
  induction names generalizing above with
  | nil => simp [descend]
  | cons name names ih =>
      have hname := hnames name (by simp)
      have hnext : tree.kindAt ((above ++ [name]) ++ names) = some .directory := by
        simpa using hdir
      have hkind : (⟨above, []⟩ : Place).kindOf tree name = some .directory := by
        rw [Place.kindOf_eq, if_pos rfl]
        exact kindAt_directory_of_prefix hnext
      have hdot : name ≠ "." := by
        rintro rfl
        exact hname.ne_dot rfl
      have hdots : name ≠ ".." := by
        rintro rfl
        exact hname.ne_dotdot rfl
      rw [descend_cons, if_neg hdot, if_neg hdots, if_neg (Nat.not_lt.mpr hname.short), hkind]
      have hrest := ih hnext fun n hn => hnames n (List.mem_cons_of_mem name hn)
      simpa [Place.down] using hrest

/-- The path of a directory that stands in the tree leads to it, unless it is too long. -/
theorem locate_path {tree : Node} {place : Place} (hplace : place.Stands tree) (here : Place)
    {path : String} (hpath : place.path? = some path) (hshort : path.utf8ByteSize < pathLimit) :
    locate tree here true path = .ok (.directory place) := by
  obtain ⟨base, lost⟩ := place
  obtain ⟨rfl, hfound, haccepted⟩ := hplace
  dsimp only at hfound haccepted
  rw [Place.path?_eq rfl, Option.some.injEq] at hpath
  dsimp only at hpath
  have habsolute : Path.isAbsolute path = true := by
    rw [← hpath]
    simp [Path.isAbsolute]
  have hne : path ≠ "" := by
    rw [← hpath]
    simp
  have hcheck := checkPath_of_short hne hshort
  have hnames : pathNames path = base := by
    rw [← hpath]
    exact pathNames_path haccepted
  have hstart : startPlace here path = ⟨[], []⟩ := by
    rw [startPlace, habsolute]
    rfl
  rw [locate, hcheck, hnames, hstart]
  show locateFrom tree true (linkLimit + 1) linkLimit ⟨[], []⟩ base (endsInSlash path) = _
  rw [locateFrom_succ]
  rcases List.eq_nil_or_concat base with rfl | ⟨front, name, rfl⟩
  · rfl
  · rw [List.concat_eq_append] at hfound haccepted ⊢
    have hfront : tree.kindAt front = some .directory := kindAt_directory_of_prefix hfound
    have hdescend : descend tree ⟨[], []⟩ front = .arrived ⟨[] ++ front, []⟩ :=
      descend_of_directory hfront fun n hn => haccepted n (by simp [hn])
    have hname := haccepted name (by simp)
    have hdot : name ≠ "." := by
      rintro rfl
      exact hname.ne_dot rfl
    have hdots : name ≠ ".." := by
      rintro rfl
      exact hname.ne_dotdot rfl
    have henter : enter tree linkLimit ⟨[], []⟩ front = .ok (⟨front, []⟩, linkLimit) := by
      unfold enter
      rw [hdescend]
      rfl
    have hkind : (⟨front, []⟩ : Place).kindOf tree name = some .directory := by
      rw [Place.kindOf_eq, if_pos rfl]
      exact hfound
    obtain ⟨node, hnode, hdirectory⟩ := Option.map_eq_some_iff.mp hkind
    rw [List.dropLast_concat, henter]
    simp only [Except.bind, List.getLast?_concat, if_neg hdot, if_neg hdots,
      if_neg (Nat.not_lt.mpr hname.short), hnode]
    cases node with
    | dir es modified => rfl
    | _ => simp [Node.kind] at hdirectory

end BuildRunner
