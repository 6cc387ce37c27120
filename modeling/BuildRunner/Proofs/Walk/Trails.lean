import BuildRunner.Walk
import BuildRunner.Proofs.Path.Relative
import Mathlib.Data.List.Basic

/-!
# Trails of a walk

A trail is the list of names on the way from the start of a walk to an entry.  The trails of a
directory are those of its entries in the order of their names, and behind them, entry by entry, the
trails below its subdirectories.  A walk writes paths and looks at the level of every path that it
has written.  On a disk whose entries have proper names these levels are the lengths of the trails,
so that a walk down to a limit visits exactly the trails that are not longer than the limit.
-/

namespace BuildRunner

open Path

/-! ## Proper names -/

namespace Node

mutual

/-- Every entry below a node has a proper name. -/
def WellNamed : Node → Prop
  | .dir es _ => WellNamedEntries es
  | _ => True

def WellNamedEntries : List (String × Node) → Prop
  | [] => True
  | (name, node) :: rest => IsName name.toList ∧ node.WellNamed ∧ WellNamedEntries rest

end

theorem wellNamed_of_lookup {es : Entries} {name : String} {node : Node}
    (hes : WellNamedEntries es) (hlookup : es.lookup name = some node) : node.WellNamed := by
  induction es with
  | nil => simp at hlookup
  | cons entry es ih =>
      obtain ⟨key, found⟩ := entry
      obtain ⟨-, hfound, hrest⟩ := hes
      rw [List.lookup_cons] at hlookup
      split at hlookup
      · simp only [Option.some.injEq] at hlookup
        subst found
        exact hfound
      · exact ih hrest hlookup

theorem wellNamed_entries {node : Node} (hnode : node.WellNamed) :
    WellNamedEntries node.entries := by
  cases node with
  | dir es modified => exact hnode
  | _ => trivial

theorem wellNamed_of_get? {node found : Node} {location : Location} (hnode : node.WellNamed)
    (hget : node.get? location = some found) : found.WellNamed := by
  induction location generalizing node with
  | nil =>
      simp only [get?, Option.some.injEq] at hget
      subst found
      exact hnode
  | cons name location ih =>
      rw [get?, Option.bind_eq_some_iff] at hget
      obtain ⟨next, hlookup, hget⟩ := hget
      exact ih (wellNamed_of_lookup (wellNamed_entries hnode) hlookup) hget

end Node

mutual

/-- Every entry that a walk can visit has a proper name. -/
def Listed.WellNamed : Listed → Prop
  | .dir es => WellNamedEach es
  | _ => True

def WellNamedEach : List (String × Listed) → Prop
  | [] => True
  | (name, entry) :: rest => IsName name.toList ∧ entry.WellNamed ∧ WellNamedEach rest

end

theorem wellNamedEach_insertByName {name : String} {entry : Listed}
    {es : List (String × Listed)} (hname : IsName name.toList) (hentry : entry.WellNamed)
    (hes : WellNamedEach es) : WellNamedEach (insertByName (name, entry) es) := by
  induction es with
  | nil => exact ⟨hname, hentry, trivial⟩
  | cons other es ih =>
      obtain ⟨hother, hnode, hrest⟩ := hes
      rw [insertByName]
      split
      · exact ⟨hother, hnode, ih hrest⟩
      · exact ⟨hname, hentry, hother, hnode, hrest⟩

namespace Node

mutual

theorem wellNamed_listed (leadsToDir : String → Bool) (path : String) :
    (node : Node) → node.WellNamed → (listed leadsToDir path node).WellNamed
  | .dir es _, hnode => by
      rw [listed]
      split
      · exact wellNamedEach_listedEntries leadsToDir path es hnode
      · trivial
  | .link _, _ => by
      rw [listed]
      split <;> trivial
  | .file .., _ => trivial
  | .pipe, _ => trivial
  | .null, _ => trivial

theorem wellNamedEach_listedEntries (leadsToDir : String → Bool) (top : String) :
    (es : List (String × Node)) → WellNamedEntries es →
      WellNamedEach (listedEntries leadsToDir top es)
  | [], _ => trivial
  | (name, node) :: rest, hes => by
      obtain ⟨hname, hnode, hrest⟩ := hes
      rw [listedEntries]
      exact wellNamedEach_insertByName hname (wellNamed_listed leadsToDir (join top name) node hnode)
        (wellNamedEach_listedEntries leadsToDir top rest hrest)

end

end Node

theorem Disk.wellNamedEach_listing {d : Disk} (htree : d.tree.WellNamed) (root : String)
    (place : Place) : WellNamedEach (d.listing root place) := by
  apply Node.wellNamedEach_listedEntries
  rw [Place.entries]
  split
  · cases hget : d.tree.get? place.base with
    | none => trivial
    | some node => exact Node.wellNamed_entries (Node.wellNamed_of_get? htree hget)
  · trivial

/-! ## Trails -/

structure Trail where
  way : List String
  isDir : Bool
deriving DecidableEq, Repr

namespace Trail

/-- A trail that begins with some names more. -/
def behind (front : List String) (trail : Trail) : Trail :=
  { trail with way := front ++ trail.way }

/-- The visit of a trail on a walk from `top`. -/
def visit (top : String) (trail : Trail) : Visit :=
  ⟨along top trail.way, String.ofList (joinedNames trail.way), trail.isDir⟩

theorem visit_path (top : String) (trail : Trail) :
    (trail.visit top).path = along top trail.way := rfl

theorem behind_nil (trail : Trail) : trail.behind [] = trail := rfl

theorem behind_behind (front next : List String) (trail : Trail) :
    (trail.behind next).behind front = trail.behind (front ++ next) := by
  simp [behind]

end Trail

/-- The trails of the entries of a directory. -/
def trailsHere (entries : List (String × Listed)) : List Trail :=
  entries.map fun (name, entry) => ⟨[name], entry.isDir⟩

mutual

/-- The trails below an entry. -/
def Listed.trails : Listed → List Trail
  | .dir es => trailsHere es ++ trailsBelowEach es
  | _ => []

/-- The trails below each of the entries of a directory. -/
def trailsBelowEach : List (String × Listed) → List Trail
  | [] => []
  | (name, entry) :: rest => entry.trails.map (Trail.behind [name]) ++ trailsBelowEach rest

end

mutual

/-- A trail is a way of proper names. -/
theorem Listed.trail_names :
    (entry : Listed) → entry.WellNamed → ∀ t ∈ entry.trails, t.way ≠ [] ∧ AreNames t.way
  | .dir es, hentry, t, ht => by
      rw [Listed.trails, List.mem_append] at ht
      rcases ht with ht | ht
      · exact trailsHere_names es hentry t ht
      · obtain ⟨hlength, hnames⟩ := trailsBelowEach_names es hentry t ht
        refine ⟨?_, hnames⟩
        rintro hnil
        rw [hnil] at hlength
        simp at hlength
  | .other, _, t, ht => by simp [Listed.trails] at ht
  | .linkedDir, _, t, ht => by simp [Listed.trails] at ht

theorem trailsHere_names :
    (es : List (String × Listed)) → WellNamedEach es →
      ∀ t ∈ trailsHere es, t.way ≠ [] ∧ AreNames t.way
  | [], _, t, ht => by simp [trailsHere] at ht
  | (name, entry) :: rest, hes, t, ht => by
      obtain ⟨hname, -, hrest⟩ := hes
      rw [trailsHere, List.map_cons, List.mem_cons] at ht
      rcases ht with rfl | ht
      · exact ⟨by simp, by simpa [AreNames] using hname⟩
      · exact trailsHere_names rest hrest t ht

theorem trailsBelowEach_names :
    (es : List (String × Listed)) → WellNamedEach es →
      ∀ t ∈ trailsBelowEach es, 2 ≤ t.way.length ∧ AreNames t.way
  | [], _, t, ht => by simp [trailsBelowEach] at ht
  | (name, entry) :: rest, hes, t, ht => by
      obtain ⟨hname, hentry, hrest⟩ := hes
      rw [trailsBelowEach, List.mem_append] at ht
      rcases ht with ht | ht
      · obtain ⟨inner, hinner, rfl⟩ := List.mem_map.mp ht
        obtain ⟨hne, hnames⟩ := Listed.trail_names entry hentry inner hinner
        have hpos := List.length_pos_of_ne_nil hne
        constructor
        · simp only [Trail.behind, List.length_append, List.length_singleton]
          omega
        · intro n hn
          rcases List.mem_cons.mp hn with rfl | hn
          · exact hname
          · exact hnames n hn
      · exact trailsBelowEach_names rest hrest t ht

end

/-! ## Levels -/

theorem joinedNames_concat {front : List String} (hne : front ≠ []) (name : String) :
    joinedNames (front ++ [name]) = joinedNames front ++ '/' :: name.toList := by
  induction front with
  | nil => exact absurd rfl hne
  | cons first front ih =>
      cases front with
      | nil => rfl
      | cons second front =>
          have hstep := ih (by simp)
          simp only [joinedNames, List.map_cons, List.map_append, List.cons_append,
            joinSegments] at hstep ⊢
          rw [hstep]
          simp only [List.append_assoc, List.cons_append]

theorem joinedNames_ne_dot {front : List String} (hne : front ≠ []) (hfront : AreNames front) :
    joinedNames front ≠ ['.'] := by
  intro hdot
  have hparts := segments_joinedNames hne hfront
  rw [hdot, segments_of_not_mem (by decide)] at hparts
  cases front with
  | nil => exact hne rfl
  | cons name rest =>
      rw [List.map_cons, List.cons.injEq] at hparts
      exact (hfront name (by simp)).ne_dot hparts.1.symm

/-- A directory as it is seen from the start of the walk. -/
def seenText (front : List String) : String :=
  if front = [] then "." else String.ofList (joinedNames front)

/-- The level that is read off a path is the length of its trail. -/
theorem levelOf_seenText {front : List String} (hfront : AreNames front) :
    levelOf (seenText front) = front.length := by
  by_cases hnil : front = []
  · subst front
    rfl
  · have htext : seenText front = String.ofList (joinedNames front) := if_neg hnil
    have hdot : String.ofList (joinedNames front) ≠ "." := by
      intro hdot
      have hchars := congrArg String.toList hdot
      rw [String.toList_ofList] at hchars
      exact joinedNames_ne_dot hnil hfront hchars
    rw [htext, levelOf, if_neg hdot, String.toList_ofList, ← length_segments,
      segments_joinedNames hnil hfront, List.length_map]

/-- What a walk writes as the path below the start. -/
theorem below_eq {front : List String} (hfront : AreNames front) {name : String}
    (hname : IsName name.toList) :
    (if levelOf (seenText front) = 0 then name else join (seenText front) name) =
      String.ofList (joinedNames (front ++ [name])) := by
  rw [levelOf_seenText hfront]
  simp only [List.length_eq_zero_iff]
  by_cases hnil : front = []
  · subst front
    rw [if_pos rfl]
    exact (String.ofList_toList).symm
  · have hlast : separator (joinedNames front) = ['/'] := by
      obtain ⟨start, last, rfl⟩ := List.eq_nil_or_concat front |>.resolve_left hnil
      have hkept := hfront last (by simp)
      rw [List.concat_eq_append]
      by_cases hstart : start = []
      · subst start
        exact separator_of_isName hkept
      · rw [joinedNames_concat hstart, ← List.singleton_append, ← List.append_assoc,
          separator_append hkept.ne_nil, separator_of_isName hkept]
    rw [if_neg hnil, seenText, if_neg hnil]
    apply String.toList_injective
    rw [toList_join_of_not_isAbsolute _ (not_isAbsolute_of_isName hname), String.toList_ofList,
      String.toList_ofList, hlast, joinedNames_concat hnil]
    simp only [List.append_assoc, List.singleton_append]

/-! ## Walks visit trails -/

/-- Whether a length is within a limit. -/
def isWithin (limit : Option Nat) (length : Nat) : Bool := limit.all (length ≤ ·)

theorem visitsHere_eq {front : List String} (hfront : AreNames front) (top : String) :
    (es : List (String × Listed)) → WellNamedEach es →
      visitsHere (along top front) (seenText front) es =
        (trailsHere es).map fun t => (t.behind front).visit top
  | [], _ => rfl
  | (name, entry) :: rest, hes => by
      obtain ⟨hname, -, hrest⟩ := hes
      have htail := visitsHere_eq hfront top rest hrest
      simp only [visitsHere, trailsHere, List.map_cons] at htail ⊢
      rw [htail, below_eq hfront hname, ← along_concat]
      rfl

section

variable {limit : Option Nat} {seen : String → String} {top : String}

theorem filter_isWithin_trailsHere {length : Nat} (es : List (String × Listed))
    (hlimit : isWithin limit (length + 1) = true) :
    ((trailsHere es).filter fun t => isWithin limit (length + t.way.length)) = trailsHere es := by
  apply List.filter_eq_self.mpr
  intro t ht
  obtain ⟨entry, -, rfl⟩ := List.mem_map.mp ht
  exact hlimit

theorem filter_isWithin_trailsBelowEach_eq_nil {length : Nat} {es : List (String × Listed)}
    (hes : WellNamedEach es) (hlimit : isWithin limit (length + 2) = false) :
    ((trailsBelowEach es).filter fun t => isWithin limit (length + t.way.length)) = [] := by
  apply List.filter_eq_nil_iff.mpr
  intro t ht
  have htwo := (trailsBelowEach_names es hes t ht).1
  cases limit with
  | none => simp [isWithin] at hlimit
  | some k =>
      simp only [isWithin, Option.all_some, decide_eq_true_eq, decide_eq_false_iff_not] at hlimit ⊢
      omega

theorem entersBelow_eq_isWithin (level : Nat) : entersBelow limit level = isWithin limit (level + 2)
    := by
  cases limit with
  | none => rfl
  | some k =>
      simp only [entersBelow, isWithin, Option.all_some]
      exact decide_eq_decide.mpr (by omega)

mutual

/-- A walk that has come along a way visits the trails that the limit leaves behind it. -/
theorem Listed.visitsBelow_eq
    (hseen : ∀ way, AreNames way → seen (along top way) = seenText way) :
    (entry : Listed) → entry.WellNamed → (front : List String) → AreNames front →
      isWithin limit (front.length + 1) = true →
      entry.visitsBelow limit seen (along top front) =
        (entry.trails.filter fun t => isWithin limit (front.length + t.way.length)).map
          fun t => (t.behind front).visit top
  | .dir es, hentry, front, hfront, hlimit => by
      rw [Listed.visitsBelow, Listed.trails, hseen front hfront, levelOf_seenText hfront,
        visitsHere_eq hfront top es hentry, entersBelow_eq_isWithin, List.filter_append,
        List.map_append, filter_isWithin_trailsHere es hlimit]
      congr 1
      by_cases hdeeper : isWithin limit (front.length + 2) = true
      · rw [if_pos hdeeper]
        exact visitsBelowEach_eq hseen es hentry front hfront hdeeper
      · rw [if_neg hdeeper, filter_isWithin_trailsBelowEach_eq_nil hentry (by simpa using hdeeper)]
        rfl
  | .other, _, _, _, _ => rfl
  | .linkedDir, _, _, _, _ => rfl

theorem visitsBelowEach_eq
    (hseen : ∀ way, AreNames way → seen (along top way) = seenText way) :
    (es : List (String × Listed)) → WellNamedEach es → (front : List String) → AreNames front →
      isWithin limit (front.length + 2) = true →
      visitsBelowEach limit seen (along top front) es =
        ((trailsBelowEach es).filter fun t => isWithin limit (front.length + t.way.length)).map
          fun t => (t.behind front).visit top
  | [], _, _, _, _ => rfl
  | (name, entry) :: rest, hes, front, hfront, hlimit => by
      obtain ⟨hname, hentry, hrest⟩ := hes
      have hnext : AreNames (front ++ [name]) := by
        intro n hn
        rcases List.mem_append.mp hn with hn | hn
        · exact hfront n hn
        · rw [List.mem_singleton] at hn
          rwa [hn]
      have hhere := Listed.visitsBelow_eq hseen entry hentry (front ++ [name]) hnext
        (by simpa using hlimit)
      rw [visitsBelowEach, trailsBelowEach, ← along_concat, hhere,
        visitsBelowEach_eq hseen rest hrest front hfront hlimit, List.filter_append,
        List.map_append, List.filter_map, List.map_map]
      congr 2
      · funext t
        simp only [Function.comp_apply, Trail.behind_behind]
      · apply List.filter_congr
        intro t _
        simp only [Function.comp_apply, Trail.behind, List.length_append, List.length_singleton]
        congr 1
        omega

end

end

/-- A walk visits the trails of its start that are within the limit, in their order. -/
theorem walk_eq {limit : Option Nat} {here top : String} {es : List (String × Listed)}
    (hhere : isAbsolute here = true) (htop : top ≠ "") (hes : WellNamedEach es)
    (hlimit : isWithin limit 1 = true) :
    walk limit here top es =
      ((Listed.dir es).trails.filter fun t => isWithin limit t.way.length).map (Trail.visit top) := by
  have hseen : ∀ way, AreNames way → relative here (along top way) top = seenText way :=
    fun way hway => relative_along hhere htop hway
  have hnone : AreNames [] := by simp [AreNames]
  have hwalk := @Listed.visitsBelow_eq limit (fun path => relative here path top) top hseen
    (.dir es) hes [] hnone hlimit
  rw [along_nil] at hwalk
  rw [walk, hwalk]
  simp only [List.length_nil, Nat.zero_add, Trail.behind_nil]

end BuildRunner
