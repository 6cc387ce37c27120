import BuildRunner.Proofs.Disk.Placing

/-!
# What a copy touches

Where there are no links, a path leads to the place that its names spell, `..` being one directory
up.  Nothing is lost or changes its kind when files and directories are copied there, and what is
new or changed is that place, stands below it or is a directory on the way to it that was missing.
-/

namespace BuildRunner

/-! ## Trees without links -/

/-- No entry is a symbolic link. -/
def Node.Linkless (tree : Node) : Prop :=
  ∀ location target, tree.kindAt location ≠ some (.link target)

/-- Every entry is a directory or a regular file. -/
def Node.Ordinary (tree : Node) : Prop :=
  ∀ location kind, tree.kindAt location = some kind → kind = .directory ∨ kind = .file

theorem Node.Ordinary.linkless {tree : Node} (hordinary : tree.Ordinary) : tree.Linkless := by
  intro location target hlink
  simpa using hordinary location _ hlink

/-- Every new entry is a directory or a regular file. -/
def Node.AddsOrdinary (tree tree' : Node) : Prop :=
  ∀ location kind, tree.kindAt location = none → tree'.kindAt location = some kind →
    kind = .directory ∨ kind = .file

namespace Node.AddsOrdinary

variable {tree tree' : Node}

theorem refl (tree : Node) : tree.AddsOrdinary tree := by
  intro location kind hnone hkind
  rw [hnone] at hkind
  cases hkind

theorem put {parent : Location} {name : String} {node : Node} (hnode : node.entries = [])
    (hfree : tree.kindAt (parent ++ [name]) = none)
    (hkind : node.kind = .directory ∨ node.kind = .file) :
    tree.AddsOrdinary (tree.put parent name node) := by
  intro location kind hnone hnew
  rw [kindAt_put _ _ _ hnode hfree] at hnew
  split at hnew
  · cases hnew
    exact hkind
  · rw [hnone] at hnew
    cases hnew

theorem modify {f : Node → Node} (hkind : ∀ node, (f node).kind = node.kind)
    (hentries : ∀ node, (f node).entries = node.entries) (tree : Node) (location : Location) :
    tree.AddsOrdinary (tree.modify f location) := by
  intro other kind hnone hnew
  rw [kindAt_modify hkind hentries, hnone] at hnew
  cases hnew

theorem ordinary (hadds : tree.AddsOrdinary tree') (hkeeps : tree.KeepsKinds tree')
    (hordinary : tree.Ordinary) : tree'.Ordinary := by
  intro location kind hkind
  cases hbefore : tree.kindAt location with
  | none => exact hadds location kind hbefore hkind
  | some before =>
      have hkept := hkeeps location before hbefore
      rw [hkind] at hkept
      cases hkept
      exact hordinary location kind hbefore

theorem linkless (hadds : tree.AddsOrdinary tree') (hkeeps : tree.KeepsKinds tree')
    (hlinkless : tree.Linkless) : tree'.Linkless := by
  intro location target hlink
  cases hbefore : tree.kindAt location with
  | none => simpa using hadds location _ hbefore hlink
  | some before =>
      have hkept := hkeeps location before hbefore
      rw [hlink] at hkept
      cases hkept
      exact hlinkless location target hbefore

end Node.AddsOrdinary

theorem Node.ordinary_empty : Node.empty.Ordinary := by
  intro location kind hkind
  cases location with
  | nil =>
      cases hkind
      exact Or.inl rfl
  | cons name rest => cases hkind

theorem Node.Ordinary.put {tree node : Node} {parent : Location} {name : String}
    (hordinary : tree.Ordinary) (hnode : node.entries = [])
    (hfree : tree.kindAt (parent ++ [name]) = none)
    (hkind : node.kind = .directory ∨ node.kind = .file) :
    (tree.put parent name node).Ordinary :=
  (Node.AddsOrdinary.put hnode hfree hkind).ordinary (Node.keepsKinds_put hnode hfree) hordinary

theorem Node.AddsOrdinary.trans {t u v : Node} (h : t.AddsOrdinary u) (h' : u.AddsOrdinary v)
    (hkeeps : u.KeepsKinds v) : t.AddsOrdinary v := by
  intro location kind hnone hkind
  cases hmiddle : u.kindAt location with
  | none => exact h' location kind hmiddle hkind
  | some before =>
      have hkept := hkeeps location before hmiddle
      rw [hkind] at hkept
      cases hkept
      exact h location kind hnone hmiddle

namespace Node.Linkless

variable {tree : Node} (hlinkless : tree.Linkless)

include hlinkless

theorem kindOf_ne (place : Place) (name target : String) :
    place.kindOf tree name ≠ some (.link target) := by
  rw [Place.kindOf_eq]
  split_ifs
  · exact hlinkless _ target
  · simp

end Node.Linkless

namespace Place

/-- The place behind a name that is no link. -/
def step (place : Place) (name : String) : Place :=
  if name = "." then place else if name = ".." then place.up else place.down name

/-- The place that names spell. -/
def along (place : Place) (names : List String) : Place := names.foldl step place

theorem along_cons (place : Place) (name : String) (rest : List String) :
    place.along (name :: rest) = (place.step name).along rest := rfl

theorem along_append (place : Place) (front rest : List String) :
    place.along (front ++ rest) = (place.along front).along rest := List.foldl_append

end Place

/-- The place of what a look-up has found, or where it would be. -/
def Spot.place : Spot → Place
  | .directory place => place
  | .leaf parent name _ => parent.down name
  | .vacant parent name => parent.down name

theorem place_of_lastSpot {follow slash : Bool} {parent : Place} {name : String}
    {go : String → Except Errno Spot} {entry : Option Node} {spot : Spot}
    (hentry : ∀ target, entry.map Node.kind ≠ some (.link target))
    (hspot : lastSpot follow slash parent name go entry = .ok spot) :
    spot.place = parent.down name := by
  have hleaf : ∀ {node}, (if slash then .error .notDirectory else .ok (.leaf parent name node)) =
      (.ok spot : Except Errno Spot) → spot.place = parent.down name := by
    intro node hleaf
    split at hleaf
    · cases hleaf
    · cases hleaf
      rfl
  rcases entry with _ | (_ | _ | target | _ | _)
  · cases hspot
    rfl
  · exact hleaf hspot
  · cases hspot
    rfl
  · exact absurd rfl (hentry target)
  · exact hleaf hspot
  · exact hleaf hspot

namespace Node.Linkless

variable {tree : Node} (hlinkless : tree.Linkless)

include hlinkless

theorem place_of_enter {links left : Nat} {place there : Place} {names : List String}
    (henter : enter tree links place names = .ok (there, left)) : there = place.along names := by
  induction names generalizing place links with
  | nil =>
      rw [enter_nil] at henter
      cases henter
      rfl
  | cons name rest ih =>
      rw [enter_cons] at henter
      cases hfirst : enter tree links place [name] with
      | error code => simp [hfirst, Except.bind] at henter
      | ok found =>
          obtain ⟨next, remaining⟩ := found
          have hnext : next = place.step name := by
            rw [enter_singleton] at hfirst
            rw [Place.step]
            split_ifs at hfirst ⊢
            · cases hfirst
              rfl
            · cases hfirst
              rfl
            · split at hfirst
              · cases hfirst
              · cases hfirst
                rfl
              · cases hfirst
              · next hkind => exact absurd hkind (hlinkless.kindOf_ne place name _)
              · cases hfirst
          rw [hfirst] at henter
          rw [Place.along_cons, ← hnext]
          exact ih henter

theorem place_of_locateFrom {follow : Bool} {fuel links : Nat} {place : Place}
    {names : List String} {slash : Bool} {spot : Spot}
    (hspot : locateFrom tree follow fuel links place names slash = .ok spot) :
    spot.place = place.along names := by
  cases fuel with
  | zero => cases hspot
  | succ fuel =>
      rw [locateFrom_succ] at hspot
      cases henter : enter tree links place names.dropLast with
      | error code => simp [henter, Except.bind] at hspot
      | ok found =>
          obtain ⟨parent, left⟩ := found
          have hparent := hlinkless.place_of_enter henter
          simp only [henter, Except.bind] at hspot
          cases hlast : names.getLast? with
          | none =>
              rw [List.getLast?_eq_none_iff] at hlast
              subst hlast
              rw [List.getLast?_nil] at hspot
              cases hspot
              exact hparent
          | some name =>
              have hsplit : place.along names = parent.step name := by
                rw [hparent, ← List.dropLast_append_getLast? name hlast, Place.along_append,
                  List.dropLast_concat]
                rfl
              rw [hsplit, Place.step]
              rw [hlast] at hspot
              dsimp only at hspot
              split_ifs at hspot ⊢
              · cases hspot
                rfl
              · cases hspot
                rfl
              · exact place_of_lastSpot (hlinkless.kindOf_ne parent name) hspot

end Node.Linkless

namespace Disk

/-- The place that a path spells. -/
def goal (d : Disk) (path : String) : Place := (startPlace d.cwd path).along (pathNames path)

/-- Without links a path leads to the place that it spells. -/
theorem place_of_status {d : Disk} (hlinkless : d.tree.Linkless) {follow : Bool} {path : String}
    {place : Place} {node : Node} (hstatus : d.status follow path = .ok (place, node)) :
    place = d.goal path := by
  rcases status_eq_ok_iff.mp hstatus with ⟨hlocate, -⟩ | ⟨parent, name, hlocate, rfl⟩
  · exact hlinkless.place_of_locateFrom (locate_eq_ok_iff.mp hlocate).2
  · exact hlinkless.place_of_locateFrom (locate_eq_ok_iff.mp hlocate).2

theorem down_of_tip {d : Disk} (hlinkless : d.tree.Linkless) {path name : String}
    {parent : Place} {slash : Bool} (htip : d.tip path = .ok (parent, .name name slash)) :
    d.goal path = parent.down name := by
  obtain ⟨-, hlast, left, henter⟩ := tip_eq_ok_iff.mp htip
  obtain ⟨hname, hdot, hdotdot, -⟩ := lastTip_eq_name_iff.mp hlast
  rw [goal, ← List.dropLast_append_getLast? name hname, Place.along_append,
    ← hlinkless.place_of_enter henter, Place.along_cons, Place.step, if_neg hdot, if_neg hdotdot]
  rfl

/-! ## What a path touches -/

/-- The location is at the place that the path spells, or below it. -/
def Below (d : Disk) (path : String) (location : Location) : Prop :=
  ∃ base, d.goal path = ⟨base, []⟩ ∧ base <+: location

/-- The location is a place on the way that the path spells. -/
def OnWay (d : Disk) (path : String) (location : Location) : Prop :=
  ∃ front, front <+: pathNames path ∧ (startPlace d.cwd path).along front = ⟨location, []⟩

/-- The location belongs to what the path spells, or it is on the way there and its directory was
missing before. -/
def Touches (d : Disk) (path : String) (d' : Disk) (location : Location) : Prop :=
  d.Below path location ∨
    (d.tree.kindAt location = none ∧ d'.tree.kindAt location = some .directory ∧
      d.OnWay path location)

/-- Nothing is lost or of another kind, and what has changed is touched by the path. -/
structure Altered (d : Disk) (path : String) (d' : Disk) : Prop where
  grown : d.GrownFrom d'
  added : d.tree.AddsOrdinary d'.tree
  touched : ∀ location, d'.tree.ownAt location ≠ d.tree.ownAt location →
    d.Touches path d' location

/-- On a proper tree without links the path tells what may change. -/
def Alters (path : String) (d d' : Disk) : Prop :=
  d.tree.Proper → d.tree.Linkless → d.Altered path d'

variable {d t d' : Disk} {path : String} {location : Location}

theorem goal_congr (hcwd : d'.cwd = d.cwd) (path : String) : d'.goal path = d.goal path := by
  rw [goal, goal, hcwd]

/-- A change that the path touches was touched from before as well. -/
theorem Touches.of_before (hgrows : d.Grows t) (htouches : t.Touches path d' location) :
    d.Touches path d' location := by
  rcases htouches with ⟨base, hgoal, hbelow⟩ | ⟨hfree, hmade, front, hfront, hway⟩
  · exact Or.inl ⟨base, by rw [← goal_congr hgrows.current, hgoal], hbelow⟩
  · refine Or.inr ⟨?_, hmade, front, hfront, by rw [← hgrows.current, hway]⟩
    by_contra hkind
    obtain ⟨kind, hkind⟩ := Option.ne_none_iff_exists'.mp hkind
    rw [hgrows.tree _ _ hkind] at hfree
    cases hfree

theorem Touches.of_after (htouches : d.Touches path t location) (hgrows : t.Grows d') :
    d.Touches path d' location := by
  rcases htouches with hbelow | ⟨hfree, hmade, hway⟩
  · exact Or.inl hbelow
  · exact Or.inr ⟨hfree, hgrows.tree _ _ hmade, hway⟩

/-- What is on the way behind a path is on the way of the path, or it is where the name leads. -/
theorem OnWay.of_join_or {directory name : String} (hname : '/' ∉ name.toList)
    (honway : d.OnWay (Path.join directory name) location) :
    d.OnWay directory location ∨ d.goal (Path.join directory name) = ⟨location, []⟩ := by
  have hfront := isFront_join directory hname
  obtain ⟨front, hway, hplace⟩ := honway
  by_cases hshort : front <+: pathNames directory
  · exact Or.inl ⟨front, hshort, by rw [← hfront.start, hplace]⟩
  · have hwhole : front = pathNames (Path.join directory name) := by
      rw [pathNames_join_of_slash_free directory hname, pathNames_of_slash_free hname] at hway ⊢
      split_ifs at hway ⊢
      · rw [List.append_nil] at hway
        exact absurd hway hshort
      · exact (List.prefix_concat_iff.mp hway).resolve_right hshort
    rw [hwhole] at hplace
    exact Or.inr hplace

/-- What is touched behind a path is touched by the path, unless it is already where the name
leads. -/
theorem Touches.of_join_or {directory name : String} (hname : '/' ∉ name.toList)
    (htouches : d.Touches (Path.join directory name) d' location) :
    d.Touches directory d' location ∨ d.Below (Path.join directory name) location := by
  rcases htouches with hbelow | ⟨hfree, hmade, honway⟩
  · exact Or.inr hbelow
  · rcases honway.of_join_or hname with habove | hgoal
    · exact Or.inl (Or.inr ⟨hfree, hmade, habove⟩)
    · exact Or.inr ⟨location, hgoal, List.prefix_refl _⟩

/-- On the way into a directory all is there. -/
theorem OnWay.kindAt (honway : d.OnWay path location) (hlinkless : d.tree.Linkless)
    (hcwd : d.tree.kindAt d.cwd.base = some .directory) (hdirectory : d.isDirectory path = true) :
    d.tree.kindAt location = some .directory := by
  obtain ⟨front, ⟨rest, hnames⟩, hplace⟩ := honway
  obtain ⟨found, henter⟩ := DiskM.exists_enter_of_isDirectory hdirectory
  rw [← hnames, enter_append] at henter
  cases hfront : enter d.tree linkLimit (startPlace d.cwd path) front with
  | error code => simp [hfront, Except.bind] at henter
  | ok there =>
      obtain ⟨place, left⟩ := there
      have hthere := kindAt_of_enter (kindAt_startPlace path hcwd) hfront
      rwa [hlinkless.place_of_enter hfront, hplace] at hthere

/-- A name leads into the directory or leaves it there, but for the one that leads up. -/
theorem Below.of_join {directory name : String} (hname : '/' ∉ name.toList)
    (hdotdot : name ≠ "..") (hbelow : d.Below (Path.join directory name) location) :
    d.Below directory location := by
  obtain ⟨base, hgoal, hbase⟩ := hbelow
  rw [goal, pathNames_join_of_slash_free directory hname, pathNames_of_slash_free hname,
    Place.along_append, (isFront_join directory hname).start] at hgoal
  change (d.goal directory).along _ = _ at hgoal
  split_ifs at hgoal
  · exact ⟨base, hgoal, hbase⟩
  · rw [Place.along_cons, Place.step, if_neg hdotdot] at hgoal
    split_ifs at hgoal
    · exact ⟨base, hgoal, hbase⟩
    · have hparts := Place.mk.inj hgoal
      have habove : (d.goal directory).base <+: base := ⟨_, hparts.1⟩
      exact ⟨(d.goal directory).base, by rw [← hparts.2], habove.trans hbase⟩

theorem Touches.of_join {directory name : String} (hname : '/' ∉ name.toList)
    (hdotdot : name ≠ "..") (htouches : d.Touches (Path.join directory name) d' location) :
    d.Touches directory d' location :=
  (htouches.of_join_or hname).elim id fun hbelow => Or.inl (hbelow.of_join hname hdotdot)

end Disk

theorem isFrame_alters (path : String) : IsFrame (Disk.Alters path) where
  refl d hproper _ := ⟨.self hproper, .refl d.tree, fun _ hne => absurd rfl hne⟩
  trans := by
    intro d t d' h h' hproper hlinkless
    have hfirst := h hproper hlinkless
    have hrest := h' hfirst.grown.proper
      (hfirst.added.linkless hfirst.grown.grows.tree hlinkless)
    refine ⟨hfirst.grown.trans hrest.grown.grows,
      hfirst.added.trans hrest.added hrest.grown.grows.tree, fun location hne => ?_⟩
    by_cases hsame : d'.tree.ownAt location = t.tree.ownAt location
    · rw [hsame] at hne
      exact (hfirst.touched location hne).of_after hrest.grown.grows
    · exact (hrest.touched location hsame).of_before hfirst.grown.grows

/-! ## Missing directories -/

namespace Disk

/-- All that has changed are directories on the way of the path that were missing. -/
structure Paved (d : Disk) (path : String) (d' : Disk) : Prop where
  grown : d.GrownFrom d'
  made : ∀ location, d'.tree.ownAt location ≠ d.tree.ownAt location →
    d.tree.kindAt location = none ∧ d'.tree.kindAt location = some .directory ∧
      d.OnWay path location

/-- On a proper tree without links only missing directories of the path are made. -/
def Paves (path : String) (d d' : Disk) : Prop :=
  d.tree.Proper → d.tree.Linkless → d.Paved path d'

variable {d d' : Disk} {path : String}

theorem Paved.altered (hpaved : d.Paved path d') : d.Altered path d' := by
  refine ⟨hpaved.grown, fun location kind hnone hkind => ?_, fun location hne =>
    Or.inr (hpaved.made location hne)⟩
  have hne : d'.tree.ownAt location ≠ d.tree.ownAt location := by
    intro hsame
    rw [Node.kindAt_eq_ownAt, hsame, ← Node.kindAt_eq_ownAt, hnone] at hkind
    cases hkind
  rw [(hpaved.made location hne).2.1] at hkind
  exact Or.inl (Option.some.inj hkind).symm

/-- What was there before is as it was. -/
theorem Paved.ownAt_eq {location : Location} (hpaved : d.Paved path d')
    (hthere : d.tree.kindAt location ≠ none) :
    d'.tree.ownAt location = d.tree.ownAt location := by
  by_contra hne
  exact hthere (hpaved.made location hne).1

end Disk

theorem isFrame_paves (path : String) : IsFrame (Disk.Paves path) where
  refl d hproper _ := ⟨.self hproper, fun _ hne => absurd rfl hne⟩
  trans := by
    intro d t d' h h' hproper hlinkless
    have hfirst := h hproper hlinkless
    have hrest := h' hfirst.grown.proper
      (hfirst.altered.added.linkless hfirst.grown.grows.tree hlinkless)
    refine ⟨hfirst.grown.trans hrest.grown.grows, fun location hne => ?_⟩
    by_cases hsame : d'.tree.ownAt location = t.tree.ownAt location
    · rw [hsame] at hne
      obtain ⟨hfree, hmade, hway⟩ := hfirst.made location hne
      exact ⟨hfree, hrest.grown.grows.tree _ _ hmade, hway⟩
    · obtain ⟨hfree, hmade, front, hfront, hway⟩ := hrest.made location hsame
      refine ⟨?_, hmade, front, hfront, by rw [← hfirst.grown.grows.current, hway]⟩
      by_contra hthere
      obtain ⟨kind, hkind⟩ := Option.ne_none_iff_exists'.mp hthere
      rw [hfirst.grown.grows.tree _ _ hkind] at hfree
      cases hfree

/-! ## Single requests -/

theorem Node.ownAt_modify_elsewhere (f : Node → Node) {base location : Location}
    (hlocation : ¬base <+: location) (tree : Node) :
    (tree.modify f base).ownAt location = tree.ownAt location := by
  by_cases habove : location <+: base
  · refine ownAt_modify_above f habove ?_ tree
    rintro rfl
    exact hlocation (List.prefix_refl _)
  · rw [ownAt, ownAt, get?_modify_apart f hlocation habove]

namespace Disk

variable {d d' : Disk} {path : String}

/-- A directory that is made by the path or a front of it is on the way of the path. -/
theorem paves_of_makeDirectory {front : String} (hfront : IsFront front path)
    (hnul : hasNul front = false) (hmake : d.makeDirectory front = .ok d') :
    d.Paves path d' := by
  intro hproper hlinkless
  have hgrows := grows_of_makeDirectory hnul hmake
  obtain ⟨parent, name, slash, htip, hlost, -, hfree, rfl⟩ := makeDirectory_inv hmake
  have hgoal := down_of_tip hlinkless htip
  refine ⟨(GrownFrom.self hproper).trans hgrows, fun location hne => ?_⟩
  rw [Node.ownAt_put _ _ _ rfl hfree] at hne
  split_ifs at hne with hthere
  · obtain ⟨rfl, hparent⟩ := hthere
    refine ⟨hfree, ?_, pathNames front, hfront.names, ?_⟩
    · rw [Node.kindAt_put _ _ _ rfl hfree, if_pos ⟨rfl, hparent⟩]
      rfl
    · rw [hfront.start]
      exact hgoal.trans (by rw [Place.down, hlost])
  · exact absurd rfl hne

theorem alters_of_store {data : Text.Bytes} (hnul : hasNul path = false)
    (hstore : d.store data path = .ok d') : d.Alters path d' := by
  intro hproper hlinkless
  have hgrows := grows_of_store hnul hstore
  obtain ⟨place, last, hwritable, hlost, hstored⟩ := store_inv hstore
  obtain ⟨name, hpath⟩ := namesEntry_of_writable hwritable
  obtain ⟨parent, htip, -, -, hend⟩ := tip_of_writable hpath hwritable
  have hthere : place = parent ∧ last = name := hend.resolve_left fun ⟨target, hlink⟩ =>
    hlinkless.kindOf_ne parent name target (by rw [Place.kindOf, hlink]; rfl)
  obtain ⟨rfl, rfl⟩ := hthere
  have hgoal : d.goal path = ⟨place.base ++ [last], []⟩ := by
    rw [down_of_tip hlinkless htip, Place.down, hlost]
  have hgrown := (GrownFrom.self hproper).trans hgrows
  rcases hstored with ⟨hfree, rfl⟩ | ⟨-, rfl⟩
  · refine ⟨hgrown, .put rfl hfree (Or.inr rfl), fun location hne => Or.inl ⟨_, hgoal, ?_⟩⟩
    rw [Node.ownAt_put _ _ _ rfl hfree] at hne
    split_ifs at hne with hthere
    · exact ⟨[], by rw [hthere.1, List.append_nil]⟩
    · exact absurd rfl hne
  · refine ⟨hgrown, .modify (Node.kind_withData data) (Node.entries_withData data) _ _,
      fun location hne => Or.inl ⟨_, hgoal, ?_⟩⟩
    by_contra hlocation
    exact hne (Node.ownAt_modify_elsewhere _ hlocation d.tree)

theorem alters_of_copyStatus {source : Node} (hcopy : d.copyStatus source path = .ok d') :
    d.Alters path d' := by
  intro hproper hlinkless
  have hgrown := (GrownFrom.self hproper).trans (grows_of_copyStatus hcopy)
  obtain ⟨place, node, hstatus, rfl⟩ := copyStatus_inv hcopy
  split_ifs at hgrown ⊢ with hlost
  · have hgoal : d.goal path = ⟨place.base, []⟩ := by
      rw [← place_of_status hlinkless hstatus, ← hlost]
    refine ⟨hgrown, .modify (Node.kind_withStatus source) (Node.entries_withStatus source) _ _,
      fun location hne => Or.inl ⟨_, hgoal, ?_⟩⟩
    by_contra hlocation
    exact hne (Node.ownAt_modify_elsewhere _ hlocation d.tree)
  · exact isFrame_alters path |>.refl d hproper hlinkless

end Disk

/-! ## Copies -/

section

variable {source target : String}

theorem respects_makeDirectories_paves (existOk : Bool) {front : String}
    (hfront : IsFront front target) :
    Respects (Disk.Paves target) (DiskM.makeDirectories existOk front) :=
  DiskM.respects_makeDirectories (isFrame_paves target) existOk fun _ _ _ habove hnul hmake =>
    Disk.paves_of_makeDirectory (habove.trans hfront) hnul hmake

theorem respects_makeDirectories_alters (existOk : Bool) {front : String}
    (hfront : IsFront front target) :
    Respects (Disk.Alters target) (DiskM.makeDirectories existOk front) :=
  (respects_makeDirectories_paves existOk hfront).mono fun _ _ hpaves hproper hlinkless =>
    (hpaves hproper hlinkless).altered

/-- What is altered behind a path is altered by the path. -/
theorem Disk.Alters.of_join {directory name : String} {d d' : Disk} (hname : '/' ∉ name.toList)
    (hdotdot : name ≠ "..") (halters : d.Alters (Path.join directory name) d') :
    d.Alters directory d' := by
  intro hproper hlinkless
  obtain ⟨hgrown, hadded, htouched⟩ := halters hproper hlinkless
  exact ⟨hgrown, hadded, fun location hne => (htouched location hne).of_join hname hdotdot⟩

theorem respects_copyStatus_alters (source target : String) :
    Respects (Disk.Alters target) (DiskM.copyStatus source target) :=
  DiskM.respects_copyStatus (isFrame_alters target) source fun _ _ _ => Disk.alters_of_copyStatus

/-- A file is copied to the path, or to its own name in the directory there. -/
theorem respects_copyFile {source : DiskM.CopySource} (hsource : Path.name source.path ≠ "..")
    (target : String) : Respects (Disk.Alters target) (DiskM.copyFile source target) := by
  have hframe := isFrame_alters target
  have hcopies : ∀ place, Respects (Disk.Alters place) (do
      DiskM.copyBytes source place
      DiskM.copyStatus source.path place) := fun place =>
    respects_bind (isFrame_alters place)
      (DiskM.respects_copyBytes (isFrame_alters place) source fun _ _ _ => Disk.alters_of_store)
      fun _ => respects_copyStatus_alters source.path place
  refine respects_bind hframe (respects_get hframe) fun d => ?_
  dsimp only
  split
  · exact (hcopies _).mono fun _ _ => Disk.Alters.of_join (slash_not_mem_name _) hsource
  · exact hcopies target

/-- The listed names are proper ones, and none is that of a link. -/
theorem Disk.entries_of_status {d : Disk} (hproper : d.tree.Proper) (hlinkless : d.tree.Linkless)
    {place : Place} {node : Node} (hstatus : d.status true source = .ok (place, node)) :
    ∀ entry ∈ node.entries, IsAccepted entry.1 ∧ ∀ linked, entry.2 ≠ .link linked := by
  intro entry hmem
  refine ⟨isAccepted_of_mem_entries hproper hstatus entry hmem, ?_⟩
  rintro linked hlink
  rcases Disk.get?_or_empty_of_status hstatus with ⟨-, hnode⟩ | rfl
  · refine hlinkless (place.base ++ [entry.1]) linked ?_
    rw [Node.kindAt, hproper.get?_of_mem hnode hmem, hlink]
    rfl
  · cases hmem

theorem respects_collect {R : Disk → Disk → Prop} (hR : IsFrame R) {action : DiskM Unit}
    (haction : Respects R action) : Respects R (DiskM.collect source target action) := by
  refine respects_tryCatch hR (respects_bind hR haction fun _ => respects_pure hR _)
    fun failure => ?_
  split
  · exact respects_pure hR _
  · exact respects_throw hR _

section

variable {levels : Nat} {existOk : Bool}
  (htrees : ∀ source target,
    Respects (Disk.Alters target) (DiskM.copyTreeFrom levels existOk source target))

include htrees

theorem respects_copyEntry {name : String} (hname : IsAccepted name) {entry : Node}
    (hlink : ∀ linked, entry ≠ .link linked) :
    Respects (Disk.Alters target) (DiskM.copyEntry levels existOk source target name entry) := by
  have hdotdot : name ≠ ".." := by
    rintro rfl
    exact hname.ne_dotdot rfl
  have hfile : Respects (Disk.Alters target)
      (DiskM.copyFile (.ofEntry source name) (Path.join target name)) := by
    refine (respects_copyFile ?_ _).mono fun _ _ => Disk.Alters.of_join hname.slash_free hdotdot
    rwa [DiskM.CopySource.ofEntry, name_join source hname.slash_free]
  cases entry with
  | link linked => exact absurd rfl (hlink linked)
  | dir es modified =>
      exact (htrees _ _).mono fun _ _ => Disk.Alters.of_join hname.slash_free hdotdot
  | file => exact hfile
  | pipe => exact hfile
  | null => exact hfile

theorem respects_copyEntries (faults : List CopyFault) {entries : Node.Entries}
    (hentries : ∀ entry ∈ entries, IsAccepted entry.1 ∧ ∀ linked, entry.2 ≠ .link linked) :
    Respects (Disk.Alters target)
      (DiskM.copyEntries levels existOk source target faults entries) := by
  have hframe := isFrame_alters target
  induction entries generalizing faults with
  | nil => exact respects_pure hframe _
  | cons entry rest ih =>
      have hhead := hentries entry List.mem_cons_self
      have hrest := fun faults =>
        ih faults fun other hmem => hentries other (List.mem_cons_of_mem _ hmem)
      unfold DiskM.copyEntries at hrest ⊢
      rw [List.foldlM_cons]
      refine respects_bind hframe (respects_bind hframe (respects_collect hframe
        (respects_copyEntry htrees hhead.1 hhead.2)) fun _ => respects_pure hframe _) hrest

theorem respects_copyInto {entries : Node.Entries}
    (hentries : ∀ entry ∈ entries, IsAccepted entry.1 ∧ ∀ linked, entry.2 ≠ .link linked) :
    Respects (Disk.Alters target) (DiskM.copyInto levels existOk source target entries) := by
  have hframe := isFrame_alters target
  refine respects_bind hframe (respects_copyEntries htrees [] hentries) fun faults => ?_
  refine respects_bind hframe (respects_collect hframe (respects_copyStatus_alters source target))
    fun more => ?_
  split
  · exact respects_throw hframe _
  · exact respects_pure hframe _

end

/-- A copy of a directory alters nothing but what its target path touches, also where it fails. -/
theorem respects_copyTreeFrom (levels : Nat) (existOk : Bool) (source target : String) :
    Respects (Disk.Alters target) (DiskM.copyTreeFrom levels existOk source target) := by
  induction levels generalizing source target with
  | zero =>
      rw [DiskM.copyTreeFrom_zero]
      exact respects_throw (isFrame_alters target) _
  | succ levels ih =>
      have hframe := isFrame_alters target
      intro d hproper hlinkless
      have hrun := run_eq (DiskM.copyTreeFrom (levels + 1) existOk source target) d
      rw [DiskM.copyTreeFrom_succ] at hrun
      rcases run_bind_of_unchanged (respects_ask isFrame_eq _ _) hrun with
        ⟨hsame, -⟩ | ⟨⟨place, node⟩, hstatus, hrest⟩
      · rw [DiskM.copyTreeFrom_succ, hsame]
        exact hframe.refl d hproper hlinkless
      · have hentries := Disk.entries_of_status hproper hlinkless (DiskM.ask_eq_ok hstatus)
        have hcopies : Respects (Disk.Alters target) (do
            DiskM.makeDirectories existOk target
            DiskM.copyInto levels existOk source target node.entries) :=
          respects_bind hframe (respects_makeDirectories_alters existOk (.refl target)) fun _ =>
            respects_copyInto ih hentries
        rw [DiskM.copyTreeFrom_succ]
        dsimp only at hrest
        split at hrest
        · have hsame := stateAfter_of_run hrest
          rw [← hsame]
          exact hframe.refl d hproper hlinkless
        · exact hcopies.of_run hrest hproper hlinkless

theorem respects_copyTree (existOk : Bool) (source target : String) :
    Respects (Disk.Alters target) (DiskM.copyTree existOk source target) := by
  unfold DiskM.copyTree
  exact respects_copyTreeFrom _ existOk source target

end

end BuildRunner
