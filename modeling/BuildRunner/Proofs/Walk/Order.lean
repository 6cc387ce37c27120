import BuildRunner.Proofs.Disk.Tree
import BuildRunner.Proofs.Walk.Trails
import Mathlib.Data.List.Sort

/-!
# The order of a walk

A walk puts the entries of a directory in the order of their names and goes down afterwards.  So its
trails come in the order of the directories on them, a directory before all that is below it, and
within a directory in the order of the names.  In a tree where the names of a directory differ, that
order is strict, and the trails are exactly the locations of the tree below the start of the walk, as
far as the paths of the directories on the way are not too long.
-/

namespace BuildRunner

open Path

/-- The directories on two ways are compared first, then the names at their ends. -/
def WayBefore (way other : List String) : Prop :=
  way.dropLast < other.dropLast ∨
    way.dropLast = other.dropLast ∧ way.getLastD "" < other.getLastD ""

namespace WayBefore

variable {way other : List String} {name next : String}

theorem irrefl (way : List String) : ¬WayBefore way way := by
  rintro (hlt | ⟨-, hlt⟩)
  · exact List.lt_irrefl _ hlt
  · exact String.lt_irrefl _ hlt

theorem asymm (hbefore : WayBefore way other) : ¬WayBefore other way := by
  rcases hbefore with hlt | ⟨heq, hlt⟩
  · rintro (hlt' | ⟨heq', -⟩)
    · exact List.lt_asymm hlt hlt'
    · rw [heq'] at hlt
      exact List.lt_irrefl _ hlt
  · rintro (hlt' | ⟨-, hlt'⟩)
    · rw [heq] at hlt'
      exact List.lt_irrefl _ hlt'
    · exact String.lt_asymm hlt hlt'

theorem of_name (hname : name < next) : WayBefore [name] [next] := Or.inr ⟨rfl, hname⟩

/-- The entries of a directory come before all that is below them. -/
theorem of_deeper (hdeeper : 2 ≤ way.length) : WayBefore [name] way := by
  obtain _ | ⟨first, _ | ⟨second, rest⟩⟩ := way
  · simp at hdeeper
  · simp at hdeeper
  · exact Or.inl (List.nil_lt_cons _ _)

theorem cons (hway : way ≠ []) (hother : other ≠ []) (hbefore : WayBefore way other) :
    WayBefore (name :: way) (name :: other) := by
  obtain ⟨first, way, rfl⟩ := List.exists_cons_of_ne_nil hway
  obtain ⟨second, other, rfl⟩ := List.exists_cons_of_ne_nil hother
  rcases hbefore with hlt | ⟨heq, hlt⟩
  · exact Or.inl (List.cons_lt_cons_iff.mpr (Or.inr ⟨rfl, hlt⟩))
  · exact Or.inr ⟨congrArg (name :: ·) heq, hlt⟩

theorem of_name_lt (hway : way ≠ []) (hother : other ≠ []) (hname : name < next) :
    WayBefore (name :: way) (next :: other) := by
  obtain ⟨first, way, rfl⟩ := List.exists_cons_of_ne_nil hway
  obtain ⟨second, other, rfl⟩ := List.exists_cons_of_ne_nil hother
  exact Or.inl (List.cons_lt_cons_iff.mpr (Or.inl hname))

end WayBefore

/-! ## Entries in order -/

mutual

/-- The entries of each directory are in the order of their names, which differ. -/
def Listed.InOrder : Listed → Prop
  | .dir es => InOrderEach es
  | _ => True

def InOrderEach : List (String × Listed) → Prop
  | [] => True
  | (name, entry) :: rest => (∀ other ∈ rest, name < other.1) ∧ entry.InOrder ∧ InOrderEach rest

end

theorem mem_insertByName {α : Type} {entry other : String × α} {es : List (String × α)} :
    other ∈ insertByName entry es ↔ other = entry ∨ other ∈ es := by
  induction es with
  | nil => simp [insertByName]
  | cons first es ih =>
      rw [insertByName]
      split
      · simp only [List.mem_cons, ih]
        tauto
      · simp only [List.mem_cons]

theorem inOrderEach_insertByName {name : String} {entry : Listed} {es : List (String × Listed)}
    (hentry : entry.InOrder) (hes : InOrderEach es) (hnew : ∀ other ∈ es, other.1 ≠ name) :
    InOrderEach (insertByName (name, entry) es) := by
  induction es with
  | nil => exact ⟨by simp, hentry, trivial⟩
  | cons first es ih =>
      obtain ⟨hfirst, hinner, hrest⟩ := hes
      have hnew' : ∀ other ∈ es, other.1 ≠ name := fun other hother =>
        hnew other (List.mem_cons_of_mem _ hother)
      rw [insertByName]
      by_cases hlt : first.1 < name
      · rw [if_pos hlt]
        refine ⟨?_, hinner, ih hrest hnew'⟩
        intro other hother
        rcases mem_insertByName.mp hother with rfl | hother
        · exact hlt
        · exact hfirst other hother
      · have hname : name < first.1 :=
          Std.lt_of_le_of_ne (String.not_lt.mp hlt) (hnew first List.mem_cons_self).symm
        rw [if_neg hlt]
        refine ⟨?_, hentry, hfirst, hinner, hrest⟩
        intro other hother
        rcases List.mem_cons.mp hother with rfl | hother
        · exact hname
        · exact String.lt_trans hname (hfirst other hother)

/-! ## Trails in order -/

theorem mem_trailsHere {t : Trail} {es : List (String × Listed)} :
    t ∈ trailsHere es ↔ ∃ entry ∈ es, t = ⟨[entry.1], entry.2.isDir⟩ := by
  simp only [trailsHere, List.mem_map, eq_comm]

theorem mem_trailsBelowEach {t : Trail} {es : List (String × Listed)} :
    t ∈ trailsBelowEach es ↔
      ∃ entry ∈ es, ∃ inner ∈ entry.2.trails, t = inner.behind [entry.1] := by
  induction es with
  | nil => simp [trailsBelowEach]
  | cons entry es ih =>
      obtain ⟨name, entry⟩ := entry
      simp only [trailsBelowEach, List.mem_append, List.mem_map, ih, List.mem_cons,
        exists_eq_or_imp, eq_comm]

theorem trailsHere_inOrder {es : List (String × Listed)} (hes : InOrderEach es) :
    (trailsHere es).Pairwise fun t u => WayBefore t.way u.way := by
  induction es with
  | nil => exact List.Pairwise.nil
  | cons entry es ih =>
      obtain ⟨hfirst, -, hrest⟩ := hes
      apply List.Pairwise.cons
      · intro t ht
        obtain ⟨other, hother, rfl⟩ := mem_trailsHere.mp ht
        exact .of_name (hfirst other hother)
      · exact ih hrest

mutual

theorem Listed.trails_inOrder :
    (entry : Listed) → entry.WellNamed → entry.InOrder →
      entry.trails.Pairwise fun t u => WayBefore t.way u.way
  | .dir es, hnames, hes => by
      rw [Listed.trails, List.pairwise_append]
      refine ⟨trailsHere_inOrder hes, trailsBelowEach_inOrder es hnames hes, ?_⟩
      intro t ht u hu
      obtain ⟨entry, -, rfl⟩ := mem_trailsHere.mp ht
      exact .of_deeper (trailsBelowEach_names es hnames u hu).1
  | .other, _, _ => List.Pairwise.nil
  | .linkedDir, _, _ => List.Pairwise.nil

theorem trailsBelowEach_inOrder :
    (es : List (String × Listed)) → WellNamedEach es → InOrderEach es →
      (trailsBelowEach es).Pairwise fun t u => WayBefore t.way u.way
  | [], _, _ => List.Pairwise.nil
  | (name, entry) :: rest, hnames, hes => by
      obtain ⟨-, hentry, hrest⟩ := hnames
      obtain ⟨hfirst, hinner, hothers⟩ := hes
      have hne : ∀ t ∈ entry.trails, t.way ≠ [] := fun t ht =>
        (Listed.trail_names entry hentry t ht).1
      rw [trailsBelowEach, List.pairwise_append, List.pairwise_map]
      refine ⟨?_, trailsBelowEach_inOrder rest hrest hothers, ?_⟩
      · apply (Listed.trails_inOrder entry hentry hinner).imp_of_mem
        intro t u ht hu hbefore
        exact hbefore.cons (hne t ht) (hne u hu)
      · intro t ht u hu
        obtain ⟨inner, hinner, rfl⟩ := List.mem_map.mp ht
        obtain ⟨other, hother, inner', hinner', rfl⟩ := mem_trailsBelowEach.mp hu
        have hlength : 2 ≤ inner'.way.length + 1 := (trailsBelowEach_names rest hrest _ hu).1
        have hne' : inner'.way ≠ [] := List.ne_nil_of_length_pos (by omega)
        exact .of_name_lt (hne inner hinner) hne' (hfirst other hother)

end

/-! ## Trees with different names -/

namespace Node

mutual

/-- The names in each directory differ. -/
def Distinct : Node → Prop
  | .dir es _ => DistinctEntries es
  | _ => True

def DistinctEntries : List (String × Node) → Prop
  | [] => True
  | (name, node) :: rest =>
    (∀ other ∈ rest, other.1 ≠ name) ∧ node.Distinct ∧ DistinctEntries rest

end

theorem lookup_eq_some_iff {es : Entries} (hes : DistinctEntries es) {name : String}
    {node : Node} : es.lookup name = some node ↔ (name, node) ∈ es := by
  induction es with
  | nil => simp
  | cons entry es ih =>
      obtain ⟨key, found⟩ := entry
      obtain ⟨hkey, -, hrest⟩ := hes
      rw [List.lookup_cons, List.mem_cons, Prod.mk.injEq]
      by_cases hname : name = key
      · subst hname
        have habsent : (name, node) ∉ es := fun hmem => hkey _ hmem rfl
        simp [habsent, eq_comm]
      · simp [hname, beq_eq_false_iff_ne.mpr hname, ih hrest]

theorem distinct_of_mem {es : Entries} (hes : DistinctEntries es) {name : String} {node : Node}
    (hmem : (name, node) ∈ es) : node.Distinct := by
  induction es with
  | nil => simp at hmem
  | cons entry es ih =>
      obtain ⟨-, hfound, hrest⟩ := hes
      rcases List.mem_cons.mp hmem with rfl | hmem
      · exact hfound
      · exact ih hrest hmem

theorem distinct_entries {node : Node} (hnode : node.Distinct) : DistinctEntries node.entries := by
  cases node with
  | dir es modified => exact hnode
  | _ => trivial

theorem distinct_of_get? {node found : Node} {location : Location} (hnode : node.Distinct)
    (hget : node.get? location = some found) : found.Distinct := by
  induction location generalizing node with
  | nil =>
      simp only [get?, Option.some.injEq] at hget
      subst found
      exact hnode
  | cons name location ih =>
      rw [get?, Option.bind_eq_some_iff] at hget
      obtain ⟨next, hlookup, hget⟩ := hget
      have hentries := distinct_entries hnode
      exact ih (distinct_of_mem hentries ((lookup_eq_some_iff hentries).mp hlookup)) hget

section

variable {leadsToDir : String → Bool}

theorem mem_listedEntries {top : String} {es : Entries} {name : String} {entry : Listed} :
    (name, entry) ∈ listedEntries leadsToDir top es ↔
      ∃ node, (name, node) ∈ es ∧ entry = node.listed leadsToDir (join top name) := by
  induction es with
  | nil => simp [listedEntries]
  | cons first es ih =>
      obtain ⟨key, node⟩ := first
      rw [listedEntries, mem_insertByName, ih]
      simp only [List.mem_cons, Prod.mk.injEq]
      constructor
      · rintro (⟨rfl, rfl⟩ | ⟨found, hmem, rfl⟩)
        · exact ⟨node, Or.inl ⟨rfl, rfl⟩, rfl⟩
        · exact ⟨found, Or.inr hmem, rfl⟩
      · rintro ⟨found, ⟨rfl, rfl⟩ | hmem, rfl⟩
        · exact Or.inl ⟨rfl, rfl⟩
        · exact Or.inr ⟨found, hmem, rfl⟩

mutual

theorem inOrder_listed (path : String) :
    (node : Node) → node.Distinct → (listed leadsToDir path node).InOrder
  | .dir es _, hnode => by
      rw [listed]
      split
      · exact inOrderEach_listedEntries path es hnode
      · trivial
  | .link _, _ => by
      rw [listed]
      split <;> trivial
  | .file .., _ => trivial
  | .pipe, _ => trivial
  | .null, _ => trivial

theorem inOrderEach_listedEntries (top : String) :
    (es : List (String × Node)) → DistinctEntries es →
      InOrderEach (listedEntries leadsToDir top es)
  | [], _ => trivial
  | (name, node) :: rest, hes => by
      obtain ⟨hname, hnode, hrest⟩ := hes
      rw [listedEntries]
      apply inOrderEach_insertByName (inOrder_listed (join top name) node hnode)
        (inOrderEach_listedEntries top rest hrest)
      intro other hother
      obtain ⟨found, hfound, -⟩ := mem_listedEntries.mp hother
      exact hname _ hfound

end

end

end Node

/-! ## Trails are locations -/

/-- Whether an entry of a kind counts as a directory; a link does if it leads to one. -/
def Kind.countsAsDir (leadsToDir : Bool) : Kind → Bool
  | .directory => true
  | .link _ => leadsToDir
  | _ => false

theorem Node.isDir_listed (leadsToDir : String → Bool) (path : String) (node : Node) :
    (node.listed leadsToDir path).isDir = node.kind.countsAsDir (leadsToDir path) := by
  cases node with
  | link target =>
      rw [Node.listed]
      split
      · next hleads => simp [Listed.isDir, kind, Kind.countsAsDir, hleads]
      · next hleads => simp [Listed.isDir, kind, Kind.countsAsDir, hleads]
  | _ => rfl

theorem mem_trails_dir {t : Trail} {es : List (String × Listed)} :
    t ∈ (Listed.dir es).trails ↔ ∃ entry ∈ es,
      t = ⟨[entry.1], entry.2.isDir⟩ ∨ ∃ inner ∈ entry.2.trails, t = inner.behind [entry.1] := by
  rw [Listed.trails, List.mem_append, mem_trailsHere, mem_trailsBelowEach]
  constructor
  · rintro (⟨entry, hentry, heq⟩ | ⟨entry, hentry, hinner⟩)
    · exact ⟨entry, hentry, Or.inl heq⟩
    · exact ⟨entry, hentry, Or.inr hinner⟩
  · rintro ⟨entry, hentry, heq | hinner⟩
    · exact Or.inl ⟨entry, hentry, heq⟩
    · exact Or.inr ⟨entry, hentry, hinner⟩

/-- The trails behind a name are those of the entry of that name. -/
theorem mem_trails_cons {leadsToDir : String → Bool} {top : String} {es : Node.Entries}
    (hes : Node.DistinctEntries es) {name : String} {way : List String} {isDir : Bool} :
    (⟨name :: way, isDir⟩ : Trail) ∈ (Listed.dir (Node.listedEntries leadsToDir top es)).trails ↔
      ∃ node, es.lookup name = some node ∧
        (way = [] ∧ isDir = (node.listed leadsToDir (join top name)).isDir ∨
          (⟨way, isDir⟩ : Trail) ∈ (node.listed leadsToDir (join top name)).trails) := by
  rw [mem_trails_dir]
  constructor
  · rintro ⟨⟨key, entry⟩, hentry, heq | ⟨inner, hinner, heq⟩⟩
    · obtain ⟨node, hnode, rfl⟩ := Node.mem_listedEntries.mp hentry
      simp only [Trail.mk.injEq, List.cons.injEq] at heq
      obtain ⟨⟨rfl, rfl⟩, rfl⟩ := heq
      exact ⟨node, (Node.lookup_eq_some_iff hes).mpr hnode, Or.inl ⟨rfl, rfl⟩⟩
    · obtain ⟨node, hnode, rfl⟩ := Node.mem_listedEntries.mp hentry
      obtain ⟨way', isDir'⟩ := inner
      simp only [Trail.behind, List.singleton_append, Trail.mk.injEq, List.cons.injEq] at heq
      obtain ⟨⟨rfl, rfl⟩, rfl⟩ := heq
      exact ⟨node, (Node.lookup_eq_some_iff hes).mpr hnode, Or.inr hinner⟩
  · rintro ⟨node, hlookup, hcase⟩
    refine ⟨(name, node.listed leadsToDir (join top name)), Node.mem_listedEntries.mpr
      ⟨node, (Node.lookup_eq_some_iff hes).mp hlookup, rfl⟩, ?_⟩
    rcases hcase with ⟨rfl, rfl⟩ | hinner
    · exact Or.inl rfl
    · exact Or.inr ⟨_, hinner, rfl⟩

theorem way_ne_nil_of_mem {t : Trail} {entry : Listed} (ht : t ∈ entry.trails) : t.way ≠ [] := by
  cases entry with
  | dir es =>
      obtain ⟨entry, -, rfl | ⟨inner, -, rfl⟩⟩ := mem_trails_dir.mp ht
      · simp
      · simp [Trail.behind]
  | _ => simp [Listed.trails] at ht

/-- The directories on a way below the start of a walk have paths that are not too long. -/
def WithinReach (top : String) (way : List String) : Prop :=
  ∀ front, front <+: way.dropLast → front ≠ [] → (along top front).utf8ByteSize < pathLimit

theorem withinReach_singleton (top name : String) : WithinReach top [name] := by
  intro front hfront hne
  exact absurd (List.prefix_nil.mp hfront) hne

theorem withinReach_cons {top name : String} {way : List String} (hway : way ≠ []) :
    WithinReach top (name :: way) ↔
      (join top name).utf8ByteSize < pathLimit ∧ WithinReach (join top name) way := by
  unfold WithinReach
  rw [List.dropLast_cons_of_ne_nil hway]
  constructor
  · intro hreach
    refine ⟨hreach [name] (by simp) (by simp), fun front hfront _ => ?_⟩
    exact hreach (name :: front) (List.cons_prefix_cons.mpr ⟨rfl, hfront⟩) (by simp)
  · rintro ⟨hshort, hreach⟩ front hfront hne
    obtain ⟨first, front, rfl⟩ := List.exists_cons_of_ne_nil hne
    obtain ⟨rfl, hrest⟩ := List.cons_prefix_cons.mp hfront
    by_cases hnil : front = []
    · subst hnil
      exact hshort
    · exact hreach front hrest hnil

/-- The trails of a directory are the locations below it that a walk can reach. -/
theorem mem_trails_iff {leadsToDir : String → Bool} {way : List String} {isDir : Bool}
    (top : String) {es : Node.Entries} (hes : Node.DistinctEntries es) (modified : Option Int) :
    (⟨way, isDir⟩ : Trail) ∈ (Listed.dir (Node.listedEntries leadsToDir top es)).trails ↔
      way ≠ [] ∧ WithinReach top way ∧ ∃ kind, (Node.dir es modified).kindAt way = some kind ∧
        isDir = kind.countsAsDir (leadsToDir (along top way)) := by
  induction way generalizing top es modified with
  | nil =>
      constructor
      · intro hmem
        exact absurd rfl (way_ne_nil_of_mem hmem)
      · rintro ⟨hne, -⟩
        exact absurd rfl hne
  | cons name way ih =>
      rw [mem_trails_cons hes, Node.kindAt, Node.get?, Node.entries]
      cases hlookup : es.lookup name with
      | none => simp
      | some node =>
          have hnode : node.Distinct :=
            Node.distinct_of_mem hes ((Node.lookup_eq_some_iff hes).mp hlookup)
          by_cases hway : way = []
          · subst hway
            have hnone : (⟨[], isDir⟩ : Trail) ∉ (node.listed leadsToDir (join top name)).trails :=
              fun hmem => way_ne_nil_of_mem hmem rfl
            have halong : along top [name] = join top name := rfl
            simp [hnone, Node.get?, Node.isDir_listed, withinReach_singleton, halong]
          · have halong : along top (name :: way) = along (join top name) way := rfl
            rw [withinReach_cons hway, halong]
            simp only [Option.some.injEq, exists_eq_left', hway, false_and, false_or, ne_eq,
              reduceCtorEq, not_false_eq_true, true_and, Option.bind_some]
            obtain ⟨next, rest, rfl⟩ := List.exists_cons_of_ne_nil hway
            cases node with
            | dir es' modified' =>
                rw [Node.listed]
                by_cases hshort : (join top name).utf8ByteSize < pathLimit
                · rw [if_pos hshort, ih (join top name) hnode modified']
                  simp [Node.kindAt, hshort]
                · have hnothing : (Listed.dir []).trails = [] := rfl
                  simp [hshort, hnothing]
            | link target =>
                rw [Node.listed]
                split <;> simp [Listed.trails, Node.get?, Node.entries]
            | _ => simp [Node.listed, Listed.trails, Node.get?, Node.entries]

/-- The trails of a listing are the locations below its directory that a walk can reach. -/
theorem mem_trails_listing {d : Disk} (htree : d.tree.Distinct) (root : String) (place : Place)
    {t : Trail} :
    t ∈ (Listed.dir (d.listing root place)).trails ↔
      place.lost = [] ∧ t.way ≠ [] ∧ WithinReach root t.way ∧
        ∃ kind, d.tree.kindAt (place.base ++ t.way) = some kind ∧
          t.isDir = kind.countsAsDir (d.isDirectory (along root t.way)) := by
  obtain ⟨way, isDir⟩ := t
  have hnone : (Listed.dir []).trails = [] := rfl
  unfold Disk.listing Place.entries
  by_cases hlost : place.lost = []
  · rw [hlost, List.isEmpty_nil, if_pos rfl]
    cases hget : d.tree.get? place.base with
    | none =>
        have hgone : d.tree.kindAt (place.base ++ way) = none := by
          rw [Node.kindAt, Node.get?_append, hget]
          rfl
        simp [Node.listedEntries, hnone, hgone]
    | some node =>
        have hnode : node.Distinct := Node.distinct_of_get? htree hget
        have hkind : way ≠ [] →
            d.tree.kindAt (place.base ++ way) = (Node.dir node.entries none).kindAt way := by
          intro hway
          obtain ⟨next, rest, rfl⟩ := List.exists_cons_of_ne_nil hway
          rw [Node.kindAt, Node.get?_append, hget]
          rfl
        rw [Option.elim, mem_trails_iff root (Node.distinct_entries hnode) none]
        constructor
        · rintro ⟨hway, hreach, hmem⟩
          exact ⟨rfl, hway, hreach, hkind hway ▸ hmem⟩
        · rintro ⟨-, hway, hreach, hmem⟩
          exact ⟨hway, hreach, hkind hway ▸ hmem⟩
  · have hempty : place.lost.isEmpty = false := by simpa using hlost
    simp [hempty, Node.listedEntries, hnone, hlost]

end BuildRunner
