import BuildRunner.Proofs.Path.Segments
import Mathlib.Data.List.Induction

/-!
# Paths below a directory

A walk writes the path of an entry by joining names behind the directory that it starts in.  Such a
path starts with that directory, goes on with the names, and is seen from the directory as the names
alone.
-/

namespace BuildRunner.Path

/-- What stands between a directory and a name that is joined to it. -/
def separator (directory : List Char) : List Char :=
  if directory = [] ∨ directory.getLast? = some '/' then [] else ['/']

theorem isAbsolute_iff (path : String) : isAbsolute path = true ↔ path.toList.head? = some '/' := by
  simp [isAbsolute]

theorem not_isAbsolute_of_slash_free {name : String} (hname : '/' ∉ name.toList) :
    isAbsolute name = false := by
  rw [Bool.eq_false_iff, ne_eq, isAbsolute_iff]
  intro hhead
  exact hname (List.mem_of_mem_head? hhead)

theorem not_isAbsolute_of_isName {name : String} (hname : IsName name.toList) :
    isAbsolute name = false :=
  not_isAbsolute_of_slash_free hname.slash_free

theorem toList_join_of_not_isAbsolute (directory : String) {name : String}
    (hname : isAbsolute name = false) :
    (join directory name).toList =
      directory.toList ++ separator directory.toList ++ name.toList := by
  unfold join separator
  rw [hname]
  simp only [Bool.false_eq_true, if_false]
  by_cases hend : directory.toList = [] ∨ directory.toList.getLast? = some '/'
  · have hcond : (directory.isEmpty || directory.toList.getLast? == some '/') = true := by
      simpa [String.isEmpty_iff] using hend
    rw [if_pos hcond, if_pos hend, String.toList_append, List.append_nil]
  · have hcond : ¬(directory.isEmpty || directory.toList.getLast? == some '/') = true := by
      simpa [String.isEmpty_iff] using hend
    rw [if_neg hcond, if_neg hend, String.toList_append, String.toList_append]
    rfl

theorem separator_append {a b : List Char} (hb : b ≠ []) : separator (a ++ b) = separator b := by
  unfold separator
  rw [List.getLast?_append_of_ne_nil a hb]
  simp [hb]

/-! ## Normal forms of joined paths -/

theorem isAbsolute_join {directory name : String} (hdir : isAbsolute directory = true) :
    isAbsolute (join directory name) = true := by
  cases hname : isAbsolute name with
  | true => simp [join, hname]
  | false =>
      rw [isAbsolute_iff] at hdir ⊢
      rw [toList_join_of_not_isAbsolute directory hname]
      cases hchars : directory.toList with
      | nil =>
          rw [hchars] at hdir
          simp at hdir
      | cons c rest =>
          rw [hchars] at hdir
          simpa using hdir

/-- One more segment behind an absolute path is pushed last. -/
theorem normalSegments_push {directory name : String} (hdir : isAbsolute directory = true)
    (hname : '/' ∉ name.toList) :
    normalSegments (join directory name).toList =
      (pushSegment true (normalSegments directory.toList).reverse name.toList).reverse := by
  have hjoin := toList_join_of_not_isAbsolute directory (not_isAbsolute_of_slash_free hname)
  have hrooted : (leadingSlashes (join directory name).toList != 0) = true := by
    rw [bne_iff_ne]
    exact (leadingSlashes_ne_zero_iff _).mpr ((isAbsolute_iff _).mp (isAbsolute_join hdir))
  have hrooted' : (leadingSlashes directory.toList != 0) = true := by
    rw [bne_iff_ne]
    exact (leadingSlashes_ne_zero_iff _).mpr ((isAbsolute_iff _).mp hdir)
  rw [normalSegments, normalSegments, hrooted, hrooted', List.reverse_reverse]
  congr 1
  by_cases hend : directory.toList.getLast? = some '/'
  · obtain ⟨front, hfront⟩ := List.getLast?_eq_some_iff.mp hend
    have hsep : separator directory.toList = [] := if_pos (Or.inr hend)
    rw [hjoin, hsep, List.append_nil, hfront, List.append_assoc, List.singleton_append,
      segments_append_slash, segments_append_slash, segments_of_not_mem hname,
      segments_of_not_mem (a := []) (by simp), List.foldl_append, List.foldl_append]
    simp only [List.foldl_cons, List.foldl_nil, pushSegment_nil]
  · have hnil : directory.toList ≠ [] := by
      intro hnil
      rw [isAbsolute_iff, hnil] at hdir
      simp at hdir
    have hsep : separator directory.toList = ['/'] := if_neg (by simp [hnil, hend])
    rw [hjoin, hsep, List.append_assoc, List.singleton_append, segments_append_slash,
      segments_of_not_mem hname, List.foldl_append]
    simp only [List.foldl_cons, List.foldl_nil]

/-- A name behind an absolute path is one more segment of the normal form. -/
theorem normalSegments_join {directory name : String} (hdir : isAbsolute directory = true)
    (hname : IsName name.toList) :
    normalSegments (join directory name).toList =
      normalSegments directory.toList ++ [name.toList] := by
  rw [normalSegments_push hdir hname.slash_free, pushSegment_of_isName hname, List.reverse_cons,
    List.reverse_reverse]

/-- A dot behind an absolute path leaves the normal form as it is. -/
theorem normalSegments_join_dot {directory : String} (hdir : isAbsolute directory = true) :
    normalSegments (join directory ".").toList = normalSegments directory.toList := by
  have hdot : pushSegment true (normalSegments directory.toList).reverse ".".toList =
      (normalSegments directory.toList).reverse := if_pos (Or.inr rfl)
  rw [normalSegments_push hdir (by decide), hdot, List.reverse_reverse]

/-- A path as seen from the root of the disk, not yet in normal form. -/
def full (here path : String) : String := if isAbsolute path then path else join here path

theorem isAbsolute_full {here : String} (hhere : isAbsolute here = true) (path : String) :
    isAbsolute (full here path) = true := by
  unfold full
  split
  · next hpath => exact hpath
  · exact isAbsolute_join hhere

theorem absoluteSegments_eq_normalSegments {here : String} (hhere : isAbsolute here = true)
    (path : String) : absoluteSegments here path = normalSegments (full here path).toList := by
  have hslash : leadingSlashes (full here path).toList ≠ 0 :=
    (leadingSlashes_ne_zero_iff _).mpr ((isAbsolute_iff _).mp (isAbsolute_full hhere path))
  have hfilter : ∀ (k : Nat) (parts : List (List Char)), (∀ part ∈ parts, IsKept part) →
      ((segments (List.replicate k '/' ++ joinSegments parts)).filter fun s => !s.isEmpty) =
        parts := by
    intro k parts hparts
    induction k with
    | succ k ih =>
        rw [List.replicate_succ, List.cons_append, segments_slash_cons]
        simpa using ih
    | zero =>
        rw [List.replicate_zero, List.nil_append]
        by_cases hne : parts = []
        · subst parts
          rfl
        · rw [segments_joinSegments hne fun part hpart => (hparts part hpart).slash_free]
          apply List.filter_eq_self.mpr
          intro part hpart
          simpa using (hparts part hpart).ne_nil
  have hbody : List.replicate (leadingSlashes (full here path).toList) '/' ++
      joinSegments (normalSegments (full here path).toList) ≠ [] := by
    simp [hslash]
  have habsolute : absolute here path = normalize (full here path) := rfl
  rw [absoluteSegments, habsolute, normalize, String.toList_ofList, normal_eq_of_ne_nil hbody]
  exact hfilter _ _ fun _ hpart => isKept_of_mem_normalSegments hpart

/-! ## Names behind a directory -/

/-- The path of an entry, from the names on the way to it. -/
def along (top : String) (way : List String) : String := way.foldl join top

/-- The names on the way to an entry as one text. -/
def joinedNames (way : List String) : List Char := joinSegments (way.map String.toList)

def AreNames (way : List String) : Prop := ∀ name ∈ way, IsName name.toList

theorem along_nil (top : String) : along top [] = top := rfl

theorem along_concat (top : String) (way : List String) (name : String) :
    along top (way ++ [name]) = join (along top way) name := by
  unfold along
  rw [List.foldl_append]
  rfl

theorem full_join {here top name : String} (htop : top ≠ "") (hname : IsName name.toList) :
    full here (join top name) = join (full here top) name := by
  have hrel := not_isAbsolute_of_isName hname
  have hnil : top.toList ≠ [] := by
    simpa [String.toList_eq_nil_iff] using htop
  have habs : isAbsolute (join top name) = isAbsolute top := by
    obtain ⟨c, rest, hchars⟩ := List.exists_cons_of_ne_nil hnil
    simp [isAbsolute, toList_join_of_not_isAbsolute top hrel, hchars]
  unfold full
  rw [habs]
  cases htopAbs : isAbsolute top with
  | true => rfl
  | false =>
      simp only [Bool.false_eq_true, if_false]
      apply String.toList_injective
      rw [toList_join_of_not_isAbsolute _ (by rw [habs, htopAbs]),
        toList_join_of_not_isAbsolute _ hrel, toList_join_of_not_isAbsolute _ hrel,
        toList_join_of_not_isAbsolute _ htopAbs, separator_append hnil]
      simp only [List.append_assoc]

theorem join_ne_empty {top name : String} (hname : IsName name.toList) : join top name ≠ "" := by
  intro hempty
  have hjoin := toList_join_of_not_isAbsolute top (not_isAbsolute_of_isName hname)
  rw [hempty] at hjoin
  have hnil := (List.append_eq_nil_iff.mp hjoin.symm).2
  exact hname.ne_nil hnil

theorem along_ne_empty {top : String} (htop : top ≠ "") {way : List String}
    (hway : AreNames way) : along top way ≠ "" := by
  induction way using List.reverseRecOn with
  | nil => exact htop
  | append_singleton way name ih =>
      rw [along_concat]
      exact join_ne_empty (hway name (by simp))

theorem absoluteSegments_along {here top : String} (hhere : isAbsolute here = true)
    (htop : top ≠ "") {way : List String} (hway : AreNames way) :
    absoluteSegments here (along top way) = absoluteSegments here top ++ way.map String.toList := by
  induction way using List.reverseRecOn with
  | nil => simp [along]
  | append_singleton way name ih =>
      have hfront : AreNames way := fun n hn => hway n (by simp [hn])
      have hname : IsName name.toList := hway name (by simp)
      rw [absoluteSegments_eq_normalSegments hhere] at ih ⊢
      rw [along_concat, full_join (along_ne_empty htop hfront) hname,
        normalSegments_join (isAbsolute_full hhere _) hname, ih hfront]
      simp

theorem dropCommon_append {α : Type} [DecidableEq α] (front back : List α) :
    dropCommon front (front ++ back) = ([], back) := by
  induction front with
  | nil => cases back <;> rfl
  | cons a front ih => simp [dropCommon, ih]

/-- An entry is seen from the start of a walk as the names on the way to it. -/
theorem relative_along {here top : String} (hhere : isAbsolute here = true) (htop : top ≠ "")
    {way : List String} (hway : AreNames way) :
    relative here (along top way) top =
      if way = [] then "." else String.ofList (joinedNames way) := by
  unfold relative
  rw [absoluteSegments_along hhere htop hway, dropCommon_append]
  cases way with
  | nil => rfl
  | cons name way => rfl

/-- The current directory as it is seen from itself. -/
theorem absoluteSegments_dot {here : String} (hhere : isAbsolute here = true) :
    absoluteSegments here "." = normalSegments here.toList := by
  have hfull : full here "." = join here "." := if_neg (by decide)
  rw [absoluteSegments_eq_normalSegments hhere, hfull, normalSegments_join_dot hhere]

theorem absoluteSegments_name {here name : String} (hhere : isAbsolute here = true)
    (hname : IsName name.toList) :
    absoluteSegments here name = normalSegments here.toList ++ [name.toList] := by
  have hfull : full here name = join here name :=
    if_neg (by simp [not_isAbsolute_of_isName hname])
  rw [absoluteSegments_eq_normalSegments hhere, hfull, normalSegments_join hhere hname]

theorem slash_not_mem_of_mem_map_toList {way : List String} (hway : AreNames way) :
    ∀ part ∈ way.map String.toList, '/' ∉ part := by
  intro part hpart
  obtain ⟨name, hname, rfl⟩ := List.mem_map.mp hpart
  exact (hway name hname).slash_free

theorem segments_joinedNames {way : List String} (hne : way ≠ []) (hway : AreNames way) :
    segments (joinedNames way) = way.map String.toList :=
  segments_joinSegments (by simpa using hne) (slash_not_mem_of_mem_map_toList hway)

theorem separator_of_isName {name : List Char} (hname : IsName name) : separator name = ['/'] := by
  unfold separator
  rw [if_neg]
  rintro (hnil | hlast)
  · exact hname.ne_nil hnil
  · exact hname.slash_free (List.mem_of_getLast? hlast)

/-- The text of a path is that of its start, a slash unless there is one, and the names. -/
theorem toList_along {top : String} {way : List String} (hne : way ≠ []) (hway : AreNames way) :
    (along top way).toList = top.toList ++ separator top.toList ++ joinedNames way := by
  induction way generalizing top with
  | nil => exact absurd rfl hne
  | cons name way ih =>
      have hname : IsName name.toList := hway name (by simp)
      have hjoin := toList_join_of_not_isAbsolute top (not_isAbsolute_of_isName hname)
      have halong : along top (name :: way) = along (join top name) way := rfl
      rw [halong]
      cases way with
      | nil => exact hjoin
      | cons next way =>
          have hrest : AreNames (next :: way) := fun n hn => hway n (List.mem_cons_of_mem name hn)
          have hsep : separator (join top name).toList = ['/'] := by
            rw [hjoin, separator_append hname.ne_nil, separator_of_isName hname]
          rw [ih (by simp) hrest, hsep, hjoin]
          simp only [joinedNames, List.map_cons, joinSegments, List.append_assoc,
            List.singleton_append]

theorem along_eq_joinedNames {name : String} {way : List String} (hway : AreNames (name :: way)) :
    along name way = String.ofList (joinedNames (name :: way)) := by
  cases way with
  | nil => exact String.ofList_toList.symm
  | cons next way =>
      have hname : IsName name.toList := hway name (by simp)
      have hrest : AreNames (next :: way) := fun n hn => hway n (List.mem_cons_of_mem name hn)
      apply String.toList_injective
      rw [toList_along (by simp) hrest, separator_of_isName hname, String.toList_ofList]
      simp [joinedNames, joinSegments]

/-- Names that are joined are seen from the current directory as they stand. -/
theorem relative_joinedNames {here : String} (hhere : isAbsolute here = true) {way : List String}
    (hne : way ≠ []) (hway : AreNames way) :
    relative here (String.ofList (joinedNames way)) "." = String.ofList (joinedNames way) := by
  obtain ⟨name, way, rfl⟩ := List.exists_cons_of_ne_nil hne
  have hname : IsName name.toList := hway name (by simp)
  have hrest : AreNames way := fun n hn => hway n (List.mem_cons_of_mem name hn)
  have htop : name ≠ "" := by
    rintro rfl
    exact hname.ne_nil rfl
  have hseen : absoluteSegments here (String.ofList (joinedNames (name :: way))) =
      normalSegments here.toList ++ (name :: way).map String.toList := by
    rw [← along_eq_joinedNames hway, absoluteSegments_along hhere htop hrest,
      absoluteSegments_name hhere hname, List.append_assoc, List.map_cons, List.singleton_append]
  unfold relative
  rw [hseen, absoluteSegments_dot hhere, dropCommon_append]
  rfl

end BuildRunner.Path
