import BuildRunner.Disk.Lookup
import Mathlib.Data.List.Basic

/-!
# Kinds of entries

A look-up goes by the kinds of the entries on its way: whether there is a directory, a link, some
other entry or nothing.  Each change of a tree is described by what it does to the kinds.  A tree
keeps the ways of another one if it has all of its directories and links, and it is a pruning of
another one if it only lacks some of its entries.
-/

namespace BuildRunner

inductive Kind
  | directory
  | link (target : String)
  | file
  | pipe
  | null
deriving DecidableEq, Repr

namespace Node

def kind : Node → Kind
  | .file .. => .file
  | .dir .. => .directory
  | .link target => .link target
  | .pipe => .pipe
  | .null => .null

/-- The kind of the entry at a location, if there is one. -/
def kindAt (tree : Node) (location : Location) : Option Kind := (tree.get? location).map kind

/-- An entry by itself: a directory without what it holds. -/
def own : Node → Node
  | .dir _ modified => .dir [] modified
  | node => node

/-- The entry at a location by itself, if there is one. -/
def ownAt (tree : Node) (location : Location) : Option Node := (tree.get? location).map own

theorem kind_own (node : Node) : node.own.kind = node.kind := by
  cases node <;> rfl

theorem kindAt_eq_ownAt (tree : Node) (location : Location) :
    tree.kindAt location = (tree.ownAt location).map kind := by
  rw [kindAt, ownAt]
  cases tree.get? location with
  | none => rfl
  | some node => exact congrArg some (kind_own node).symm

/-! ## Entries -/

/-- What is no directory is all its own. -/
theorem get?_of_ownAt {tree node : Node} {location : Location}
    (hown : tree.ownAt location = some node.own) (hleaf : node.kind ≠ .directory) :
    tree.get? location = some node := by
  obtain ⟨found, hfound, hsame⟩ := Option.map_eq_some_iff.mp hown
  rw [hfound]
  cases node with
  | dir es modified => exact absurd rfl hleaf
  | _ =>
      cases found with
      | dir es modified => cases hsame
      | _ => exact congrArg some hsame

theorem lookup_mapNamed (name key : String) (f : Node → Node) (es : Entries) :
    (mapNamed name f es).lookup key =
      if key = name then (es.lookup key).map f else es.lookup key := by
  induction es with
  | nil => simp [mapNamed]
  | cons entry es ih =>
      obtain ⟨other, node⟩ := entry
      unfold mapNamed at ih ⊢
      rw [List.map_cons, List.lookup_cons, List.lookup_cons, ih]
      by_cases hkey : key = other
      · subst other
        by_cases hname : key = name <;> simp [hname]
      · rw [beq_eq_false_iff_ne.mpr hkey]

theorem lookup_dropEntry (name key : String) (es : Entries) :
    (dropEntry name es).lookup key = if key = name then none else es.lookup key := by
  induction es with
  | nil => simp [dropEntry]
  | cons entry es ih =>
      obtain ⟨other, node⟩ := entry
      unfold dropEntry at ih ⊢
      rw [List.filter_cons, List.lookup_cons]
      by_cases hother : other = name
      · subst other
        simp only [bne_self_eq_false, Bool.false_eq_true, if_false, ih]
        by_cases hkey : key = name
        · rw [if_pos hkey, if_pos hkey]
        · rw [beq_eq_false_iff_ne.mpr hkey]
      · have hkept : (other != name) = true := by simpa using hother
        rw [hkept, if_pos rfl, List.lookup_cons, ih]
        by_cases hkey : key = other
        · subst other
          simp [hother]
        · rw [beq_eq_false_iff_ne.mpr hkey]

theorem lookup_putEntry (name key : String) (node : Node) (es : Entries) :
    (putEntry name node es).lookup key = if key = name then some node else es.lookup key := by
  unfold putEntry
  split
  · next htaken =>
      obtain ⟨old, hold⟩ := Option.isSome_iff_exists.mp htaken
      rw [lookup_mapNamed]
      by_cases hkey : key = name
      · subst key
        simp [hold]
      · simp [hkey]
  · next hfree =>
      rw [Option.not_isSome_iff_eq_none] at hfree
      rw [List.lookup_append]
      by_cases hkey : key = name
      · subst key
        simp [hfree]
      · rw [List.lookup_cons, beq_eq_false_iff_ne.mpr hkey]
        simp [hkey]

/-! ## Changes of trees -/

theorem get?_append (tree : Node) (a b : Location) :
    tree.get? (a ++ b) = (tree.get? a).bind (·.get? b) := by
  induction a generalizing tree with
  | nil => rfl
  | cons name a ih =>
      rw [List.cons_append, get?, get?]
      cases tree.entries.lookup name with
      | none => rfl
      | some next => simpa using ih next

theorem get?_modify_append (f : Node → Node) (location rest : Location) (tree : Node) :
    (tree.modify f location).get? (location ++ rest) =
      (tree.get? location).bind fun node => (f node).get? rest := by
  induction location generalizing tree with
  | nil => rfl
  | cons name location ih =>
      cases tree with
      | dir es modified =>
          rw [modify, List.cons_append, get?, get?, entries, entries, lookup_mapNamed,
            if_pos rfl]
          cases es.lookup name with
          | none => rfl
          | some next => simpa using ih next
      | _ => rfl

theorem get?_modify_above (f : Node → Node) (a b : Location) (tree : Node) :
    (tree.modify f (a ++ b)).get? a = (tree.get? a).map (modify f b) := by
  induction a generalizing tree with
  | nil => rfl
  | cons name a ih =>
      cases tree with
      | dir es modified =>
          rw [List.cons_append, modify, get?, get?, entries, entries, lookup_mapNamed, if_pos rfl]
          cases es.lookup name with
          | none => rfl
          | some next => simpa using ih next
      | _ => rfl

/-- A change at a location does not touch what is neither on the way to it nor behind it. -/
theorem get?_modify_apart (f : Node → Node) {a b : Location} (hbehind : ¬a <+: b)
    (habove : ¬b <+: a) (tree : Node) : (tree.modify f a).get? b = tree.get? b := by
  induction a generalizing tree b with
  | nil => exact absurd List.nil_prefix hbehind
  | cons name a ih =>
      cases b with
      | nil => exact absurd List.nil_prefix habove
      | cons key b =>
          cases tree with
          | dir es modified =>
              rw [modify, get?, get?, entries, entries, lookup_mapNamed]
              by_cases hkey : key = name
              · subst key
                rw [List.cons_prefix_cons, not_and] at hbehind habove
                rw [if_pos rfl]
                cases es.lookup name with
                | none => rfl
                | some next => simpa using ih (hbehind rfl) (habove rfl) next
              · rw [if_neg hkey]
          | _ => rfl

section

-- what is observed of an entry does not depend on what a directory holds
variable {β : Type} {g : Node → β}
  (hg : ∀ es es' modified, g (.dir es modified) = g (.dir es' modified))
  {f : Node → Node} (hf : ∀ node, g (f node) = g node)

include hg hf

theorem observed_modify (location : Location) (tree : Node) :
    g (tree.modify f location) = g tree := by
  cases location with
  | nil => exact hf tree
  | cons name location =>
      cases tree with
      | dir es modified => exact hg _ _ _
      | _ => rfl

/-- A change at a location is not observed where the location does not lead. -/
theorem observed_modify_of_not_prefix {location other : Location} (hother : ¬location <+: other)
    (tree : Node) : ((tree.modify f location).get? other).map g = (tree.get? other).map g := by
  induction location generalizing tree other with
  | nil => exact absurd (List.nil_prefix) hother
  | cons name location ih =>
      cases other with
      | nil => exact congrArg some (observed_modify hg hf _ _)
      | cons key other =>
          cases tree with
          | dir es modified =>
              rw [modify, get?, get?, entries, entries, lookup_mapNamed]
              by_cases hkey : key = name
              · subst key
                have hrest : ¬location <+: other := by
                  intro hbehind
                  exact hother (List.cons_prefix_cons.mpr ⟨rfl, hbehind⟩)
                rw [if_pos rfl]
                cases es.lookup name with
                | none => rfl
                | some next => simpa using ih hrest next
              · rw [if_neg hkey]
          | _ => rfl

end

/-- A change at a location leaves the kinds elsewhere alone. -/
theorem kindAt_modify_of_not_prefix {f : Node → Node} (hf : ∀ node, (f node).kind = node.kind)
    {location other : Location} (hother : ¬location <+: other) (tree : Node) :
    (tree.modify f location).kindAt other = tree.kindAt other :=
  observed_modify_of_not_prefix (fun _ _ _ => rfl) hf hother tree

/-- A change at a location leaves the entries elsewhere alone. -/
theorem ownAt_modify_of_not_prefix {f : Node → Node} (hf : ∀ node, (f node).own = node.own)
    {location other : Location} (hother : ¬location <+: other) (tree : Node) :
    (tree.modify f location).ownAt other = tree.ownAt other :=
  observed_modify_of_not_prefix (fun _ _ _ => rfl) hf hother tree

theorem kind_mapEntries (f : Entries → Entries) (node : Node) :
    (mapEntries f node).kind = node.kind := by
  cases node <;> rfl

theorem own_mapEntries (f : Entries → Entries) (node : Node) :
    (mapEntries f node).own = node.own := by
  cases node <;> rfl

/-- A change of nodes that touches neither their kinds nor their entries leaves all kinds alone. -/
theorem kindAt_modify {f : Node → Node} (hkind : ∀ node, (f node).kind = node.kind)
    (hentries : ∀ node, (f node).entries = node.entries) (location other : Location)
    (tree : Node) : (tree.modify f location).kindAt other = tree.kindAt other := by
  by_cases hbehind : location <+: other
  · obtain ⟨rest, rfl⟩ := hbehind
    rw [kindAt, kindAt, get?_modify_append, get?_append]
    cases tree.get? location with
    | none => rfl
    | some node =>
        cases rest with
        | nil => simpa [get?] using hkind node
        | cons name rest => simp [get?, hentries]
  · exact kindAt_modify_of_not_prefix hkind hbehind tree

/-! ## Kinds after a change -/

theorem kindAt_append (tree : Node) (a b : Location) :
    tree.kindAt (a ++ b) = (tree.get? a).bind (·.kindAt b) := by
  rw [kindAt, get?_append]
  cases tree.get? a <;> rfl

/-- Nothing lies behind what is missing. -/
theorem kindAt_eq_none_of_front {tree : Node} {a b : Location} (hfront : a <+: b)
    (hnone : tree.kindAt a = none) : tree.kindAt b = none := by
  obtain ⟨rest, rfl⟩ := hfront
  rw [kindAt, Option.map_eq_none_iff] at hnone
  rw [kindAt_append, hnone, Option.bind_none]

theorem kindAt_cons (node : Node) (name : String) (rest : Location) :
    node.kindAt (name :: rest) = (node.entries.lookup name).bind (·.kindAt rest) := by
  rw [kindAt, get?]
  cases node.entries.lookup name <;> rfl

/-- Nothing lies behind an entry that is no directory. -/
theorem kindAt_cons_of_kind_ne {node : Node} (hnode : node.kind ≠ .directory) (name : String)
    (rest : Location) : node.kindAt (name :: rest) = none := by
  cases node with
  | dir es modified => exact absurd rfl hnode
  | _ => rfl

theorem kindAt_modify_self {f : Node → Node} (hf : ∀ node, (f node).kind = node.kind)
    (location : Location) (tree : Node) :
    (tree.modify f location).kindAt location = tree.kindAt location := by
  have hself := get?_modify_append f location [] tree
  rw [List.append_nil] at hself
  rw [kindAt, hself, kindAt]
  cases tree.get? location with
  | none => rfl
  | some node => exact congrArg some (hf node)

/-- What stands behind a directory whose entries are changed. -/
theorem kindAt_modify_entries (tree : Node) (f : Entries → Entries) (parent : Location)
    (key : String) (rest : Location) :
    (tree.modify (mapEntries f) parent).kindAt (parent ++ key :: rest) =
      (tree.get? parent).bind fun node =>
        if node.kind = .directory then ((f node.entries).lookup key).bind (·.kindAt rest)
        else none := by
  rw [kindAt, get?_modify_append]
  cases tree.get? parent with
  | none => rfl
  | some node =>
      show (mapEntries f node).kindAt (key :: rest) = _
      rw [kindAt_cons]
      cases node <;> rfl

/-- A new entry is found where it was put, and all that was there is found as before. -/
theorem get?_put (tree : Node) (parent : Location) (name : String) {node : Node}
    (hnode : node.entries = []) (hfree : tree.kindAt (parent ++ [name]) = none)
    {location : Location} (hlocation : ¬location <+: parent) :
    (tree.put parent name node).get? location =
      if location = parent ++ [name] ∧ tree.kindAt parent = some .directory then some node
      else tree.get? location := by
  by_cases hbehind : parent <+: location
  · obtain ⟨rest, rfl⟩ := hbehind
    cases rest with
    | nil => exact absurd (by simp) hlocation
    | cons key rest =>
        rw [put, get?_modify_append, get?_append, kindAt]
        rw [kindAt_append] at hfree
        cases hparent : tree.get? parent with
        | none => simp
        | some found =>
            rw [hparent, Option.bind_some, kindAt_cons] at hfree
            cases found with
            | dir es modified =>
                have hvacant : es.lookup name = none := by
                  cases hlookup : es.lookup name with
                  | none => rfl
                  | some other => simp [entries, hlookup, kindAt, get?] at hfree
                rw [Option.bind_some, Option.bind_some, mapEntries, get?, get?, entries, entries,
                  lookup_putEntry]
                by_cases hkey : key = name
                · subst key
                  cases rest with
                  | nil => simp [kind, get?]
                  | cons next rest => simp [hvacant, get?, hnode]
                · simp [hkey]
            | _ => simp [mapEntries, kind]
  · have hne : location ≠ parent ++ [name] := by
      rintro rfl
      exact hbehind (List.prefix_append _ _)
    rw [if_neg fun h => hne h.1]
    exact get?_modify_apart _ hbehind hlocation tree

theorem ownAt_put (tree : Node) (parent : Location) (name : String) {node : Node}
    (hnode : node.entries = []) (hfree : tree.kindAt (parent ++ [name]) = none)
    (location : Location) :
    (tree.put parent name node).ownAt location =
      if location = parent ++ [name] ∧ tree.kindAt parent = some .directory then some node.own
      else tree.ownAt location := by
  by_cases hlocation : location <+: parent
  · have hne : location ≠ parent ++ [name] := by
      rintro rfl
      exact absurd hlocation.length_le (by simp)
    rw [if_neg fun h => hne h.1]
    by_cases hsame : parent <+: location
    · obtain rfl := hlocation.eq_of_length (Nat.le_antisymm hlocation.length_le hsame.length_le)
      have hself := get?_modify_append (mapEntries (putEntry name node)) location [] tree
      rw [List.append_nil] at hself
      rw [ownAt, ownAt, put, hself]
      cases tree.get? location with
      | none => rfl
      | some found => exact congrArg some (own_mapEntries _ found)
    · exact ownAt_modify_of_not_prefix (own_mapEntries _) hsame tree
  · rw [ownAt, get?_put tree parent name hnode hfree hlocation, ownAt]
    split
    · rfl
    · rfl

theorem kindAt_put (tree : Node) (parent : Location) (name : String) {node : Node}
    (hnode : node.entries = []) (hfree : tree.kindAt (parent ++ [name]) = none)
    (location : Location) :
    (tree.put parent name node).kindAt location =
      if location = parent ++ [name] ∧ tree.kindAt parent = some .directory then some node.kind
      else tree.kindAt location := by
  rw [kindAt_eq_ownAt, ownAt_put tree parent name hnode hfree, kindAt_eq_ownAt _ location]
  split
  · exact congrArg some (kind_own node)
  · rfl

/-- Taking an entry out leaves nothing at its place or below, and the kinds elsewhere alone. -/
theorem kindAt_drop (tree : Node) (parent : Location) (name : String) (location : Location) :
    (tree.drop parent name).kindAt location =
      if parent ++ [name] <+: location then none else tree.kindAt location := by
  by_cases hbehind : parent <+: location
  · obtain ⟨rest, rfl⟩ := hbehind
    have hiff : parent ++ [name] <+: parent ++ rest ↔ [name] <+: rest :=
      List.prefix_append_right_inj parent
    cases rest with
    | nil =>
        rw [if_neg (fun h => by simpa using hiff.mp h), List.append_nil]
        exact kindAt_modify_self (kind_mapEntries _) parent tree
    | cons key rest =>
        rw [drop, kindAt_modify_entries, kindAt_append]
        by_cases hkey : key = name
        · subst key
          rw [if_pos (hiff.mpr (by simp))]
          cases tree.get? parent with
          | none => rfl
          | some found => simp [lookup_dropEntry]
        · rw [if_neg (fun h => hkey (by simpa [eq_comm] using hiff.mp h))]
          cases tree.get? parent with
          | none => rfl
          | some found =>
              rw [Option.bind_some, Option.bind_some, lookup_dropEntry, if_neg hkey]
              by_cases hfound : found.kind = .directory
              · rw [if_pos hfound, kindAt_cons]
              · rw [if_neg hfound, kindAt_cons_of_kind_ne hfound]
  · rw [if_neg fun h => hbehind ((List.prefix_append _ _).trans h)]
    exact kindAt_modify_of_not_prefix (kind_mapEntries _) hbehind tree

/-- A change of one entry of a directory leaves alone what is neither this entry nor below it. -/
theorem ownAt_modify_apart {change : Entries → Entries} {parent location : Location} {name : String}
    (hchange : ∀ es key, key ≠ name → (change es).lookup key = es.lookup key)
    (hspared : ¬parent ++ [name] <+: location) (tree : Node) :
    (tree.modify (mapEntries change) parent).ownAt location = tree.ownAt location := by
  by_cases hbehind : parent <+: location
  · obtain ⟨rest, rfl⟩ := hbehind
    rw [ownAt, ownAt, get?_modify_append, get?_append]
    cases tree.get? parent with
    | none => rfl
    | some found =>
        cases rest with
        | nil => exact congrArg some (own_mapEntries _ found)
        | cons key rest =>
            have hkey : key ≠ name := by
              rintro rfl
              exact hspared ((List.prefix_append_right_inj parent).mpr (by simp))
            cases found with
            | dir es modified =>
                rw [Option.bind_some, Option.bind_some, mapEntries, get?, get?, entries, entries,
                  hchange es key hkey]
            | _ => rfl
  · exact ownAt_modify_of_not_prefix (own_mapEntries _) hbehind tree

theorem ownAt_drop (tree : Node) {parent : Location} {name : String} {location : Location}
    (hspared : ¬parent ++ [name] <+: location) :
    (tree.drop parent name).ownAt location = tree.ownAt location :=
  ownAt_modify_apart (fun es key hkey => by rw [lookup_dropEntry, if_neg hkey]) hspared tree

theorem ownAt_put_apart (tree node : Node) {parent : Location} {name : String}
    {location : Location} (hspared : ¬parent ++ [name] <+: location) :
    (tree.put parent name node).ownAt location = tree.ownAt location :=
  ownAt_modify_apart (fun es key hkey => by rw [lookup_putEntry, if_neg hkey]) hspared tree

/-- Emptying a directory leaves alone what is not below it. -/
theorem ownAt_clear (tree : Node) {parent location : Location} (hspared : ¬parent <+: location) :
    (tree.modify (mapEntries fun _ => []) parent).ownAt location = tree.ownAt location :=
  ownAt_modify_of_not_prefix (own_mapEntries _) hspared tree

/-- Emptying a directory leaves nothing below it, and the kinds elsewhere alone. -/
theorem kindAt_clear (tree : Node) (parent location : Location) :
    (tree.modify (mapEntries fun _ => []) parent).kindAt location =
      if parent <+: location ∧ parent ≠ location then none else tree.kindAt location := by
  by_cases hbehind : parent <+: location
  · obtain ⟨rest, rfl⟩ := hbehind
    cases rest with
    | nil =>
        rw [if_neg (by simp), List.append_nil]
        exact kindAt_modify_self (kind_mapEntries _) parent tree
    | cons key rest =>
        rw [kindAt_modify_entries, if_pos (by simp)]
        cases tree.get? parent with
        | none => rfl
        | some found => simp
  · rw [if_neg fun h => hbehind h.1]
    exact kindAt_modify_of_not_prefix (kind_mapEntries _) hbehind tree

end Node

end BuildRunner
