import BuildRunner.Disk.Request
import BuildRunner.Proofs.Disk.Entering

/-!
# Paths and the directories above

A path is taken apart into the directory above and its last name, and joined of them.  What is known
of the longer path, that it is free of NUL or short enough, is known of the directory above.
-/

namespace BuildRunner

theorem Disk.hasNul_eq_false_iff {path : String} :
    Disk.hasNul path = false ↔ '\x00' ∉ path.toList := by
  simp [Disk.hasNul]

/-! ## Joining and taking apart -/

/-- Slashes at the end of a path name nothing. -/
theorem pathNames_append_slashes {path other : String} {k : Nat}
    (hpath : path.toList = other.toList ++ List.replicate k '/') :
    pathNames path = pathNames other := by
  rw [pathNames, pathNames, hpath]
  apply congrArg (List.map String.ofList)
  clear hpath
  induction k with
  | zero => rw [List.replicate_zero, List.append_nil]
  | succ k ih =>
      have hnothing : (Path.segments []).filter (fun s => !s.isEmpty) = [] := by decide
      rw [List.replicate_succ', ← List.append_assoc, Path.segments_append_slash,
        List.filter_append, hnothing, List.append_nil, ih]

theorem slash_not_mem_name (path : String) : '/' ∉ (Path.name path).toList := by
  rw [Path.name, String.toList_ofList]
  exact Path.slash_not_mem_lastPart _

theorem name_join (directory : String) {name : String} (hname : '/' ∉ name.toList) :
    Path.name (Path.join directory name) = name := by
  rw [Path.name, Path.toList_join_of_not_isAbsolute directory
    (Path.not_isAbsolute_of_slash_free hname), Path.separator]
  split_ifs with hend
  · rw [List.append_nil]
    rcases hend with hnil | hslash
    · have hkept : name.toList.reverse.takeWhile (· != '/') = name.toList.reverse := by
        rw [List.takeWhile_eq_self_iff]
        intro c hc
        have hne : c ≠ '/' := fun hslash => hname (by simpa [hslash] using hc)
        simpa using hne
      rw [hnil, List.nil_append, Path.lastPart, hkept, List.reverse_reverse, String.ofList_toList]
    · rw [Path.lastPart_append hslash hname, String.ofList_toList]
  · rw [Path.lastPart_append List.getLast?_concat hname, String.ofList_toList]

section

variable {directory name : String} (hname : Path.IsName name.toList)

include hname

theorem prefix_join (directory : String) :
    directory.toList <+: (Path.join directory name).toList := by
  rw [Path.toList_join_of_not_isAbsolute directory (Path.not_isAbsolute_of_isName hname),
    List.append_assoc]
  exact List.prefix_append _ _

/-- The part of a path before its last name is the directory, but for slashes at the end. -/
theorem splitLast_join (hdirectory : directory ≠ "") :
    ∃ head, DiskM.splitLast (Path.join directory name) = (head, name) ∧ head ≠ "" ∧
      pathNames head = pathNames directory ∧
      head.toList <+: (Path.join directory name).toList := by
  have hjoin := Path.toList_join_of_not_isAbsolute directory (Path.not_isAbsolute_of_isName hname)
  have hchars : directory.toList ≠ [] := by simpa using hdirectory
  generalize hfront : directory.toList ++ Path.separator directory.toList = front at hjoin
  have hend : front.getLast? = some '/' := by
    rw [← hfront, Path.separator]
    split_ifs with hslash
    · rw [List.append_nil]
      exact hslash.resolve_left hchars
    · exact List.getLast?_concat
  have hne : front ≠ [] := by
    rintro rfl
    simp at hend
  have hlead := Path.leadingPart_append hend hname.slash_free
  have hlast := name_join directory hname.slash_free
  have hproper : name.isEmpty = false := by
    rw [← Bool.not_eq_true, String.isEmpty_iff]
    rintro rfl
    exact hname.ne_nil rfl
  have hsplit : DiskM.splitLast (Path.join directory name) =
      (Path.parent (Path.join directory name), name) := by
    rw [DiskM.splitLast, hlast, hproper, if_neg (by decide)]
  have hparent : ∃ k, front = (Path.parent (Path.join directory name)).toList ++
      List.replicate k '/' := by
    rw [Path.parent, Path.parentChars, String.toList_ofList, hjoin, hlead]
    split_ifs
    · exact ⟨0, (List.append_nil _).symm⟩
    · exact Path.exists_eq_dropSlashes_append front
  obtain ⟨k, hk⟩ := hparent
  refine ⟨_, hsplit, ?_, ?_, ?_⟩
  · -- if nothing were left, the front would consist of slashes and be kept as it is
    intro hempty
    rw [hempty, String.toList_empty, List.nil_append] at hk
    have hall : front.all (· == '/') = true := by simp [hk]
    rw [Path.parent, Path.parentChars, hjoin, hlead, if_pos hall] at hempty
    exact hne (by simpa using congrArg String.toList hempty)
  · have hfrontNames : pathNames (String.ofList front) = pathNames directory := by
      rw [Path.separator] at hfront
      split_ifs at hfront
      · exact pathNames_append_slashes (k := 0) (by simpa using hfront.symm)
      · exact pathNames_append_slashes (k := 1) (by simpa using hfront.symm)
    rw [← hfrontNames]
    exact (pathNames_append_slashes (by simpa using hk)).symm
  · rw [hjoin, hk, List.append_assoc]
    exact List.prefix_append _ _

end

theorem utf8ByteSize_join_le (directory : String) {name : String}
    (hname : Path.IsName name.toList) :
    (Path.join directory name).utf8ByteSize ≤ directory.utf8ByteSize + 1 + name.utf8ByteSize := by
  unfold Path.join
  rw [Path.not_isAbsolute_of_isName hname, if_neg (by decide)]
  split
  · rw [String.utf8ByteSize_append]
    omega
  · rw [String.utf8ByteSize_append, String.utf8ByteSize_append]
    exact Nat.le_refl _

theorem utf8ByteSize_lt_join (directory : String) {name : String}
    (hname : Path.IsName name.toList) :
    directory.utf8ByteSize < (Path.join directory name).utf8ByteSize := by
  have hpositive : name.utf8ByteSize ≠ 0 := fun hzero =>
    hname.ne_nil (by rw [String.utf8ByteSize_eq_zero_iff.mp hzero, String.toList_empty])
  unfold Path.join
  rw [Path.not_isAbsolute_of_isName hname, if_neg (by decide)]
  split
  · rw [String.utf8ByteSize_append]
    omega
  · rw [String.utf8ByteSize_append, String.utf8ByteSize_append]
    omega

theorem le_utf8ByteSize_of_prefix {path other : String} (hfront : path.toList <+: other.toList) :
    path.utf8ByteSize ≤ other.utf8ByteSize := by
  obtain ⟨rest, hrest⟩ := hfront
  have hother : other = path ++ String.ofList rest := by
    rw [← String.toList_inj, String.toList_append, String.toList_ofList, hrest]
  rw [hother, String.utf8ByteSize_append]
  exact Nat.le_add_right _ _

theorem hasNul_of_front {path other : String} (hfront : path.toList <+: other.toList)
    (hother : Disk.hasNul other = false) : Disk.hasNul path = false := by
  rw [Disk.hasNul, List.contains_eq_mem, decide_eq_false_iff_not] at hother ⊢
  exact fun hmem => hother (hfront.subset hmem)

theorem hasNul_join {directory name : String} (hdirectory : Disk.hasNul directory = false)
    (hname : Disk.hasNul name = false) : Disk.hasNul (Path.join directory name) = false := by
  unfold Path.join Disk.hasNul at *
  split
  · exact hname
  · split
    · simp_all
    · simp_all

namespace Path

theorem prefix_dropSlashes (path : List Char) : dropSlashes path <+: path := by
  obtain ⟨k, hk⟩ := exists_eq_dropSlashes_append path
  exact ⟨List.replicate k '/', hk.symm⟩

theorem prefix_parentChars (path : List Char) : parentChars path <+: path := by
  have hleading : leadingPart path <+: path := ⟨lastPart path, leadingPart_append_lastPart path⟩
  unfold parentChars
  dsimp only
  split
  · exact hleading
  · exact (prefix_dropSlashes _).trans hleading

theorem lastPart_suffix (path : List Char) : lastPart path <:+ path :=
  ⟨leadingPart path, leadingPart_append_lastPart path⟩

end Path

theorem prefix_parent (path : String) : (Path.parent path).toList <+: path.toList := by
  rw [Path.parent, String.toList_ofList]
  exact Path.prefix_parentChars _

theorem prefix_splitLast (path : String) : (DiskM.splitLast path).1.toList <+: path.toList := by
  unfold DiskM.splitLast
  split
  · exact (prefix_parent _).trans (prefix_parent _)
  · exact prefix_parent _

theorem hasNul_name {path : String} (hpath : Disk.hasNul path = false) :
    Disk.hasNul (Path.name path) = false := by
  rw [Disk.hasNul_eq_false_iff] at hpath ⊢
  rw [Path.name, String.toList_ofList]
  exact fun hmem => hpath ((Path.lastPart_suffix _).subset hmem)

theorem hasNul_normalize {path : String} (hpath : Disk.hasNul path = false) :
    Disk.hasNul (Path.normalize path) = false := by
  rw [Disk.hasNul_eq_false_iff] at hpath ⊢
  rw [Path.normalize, String.toList_ofList]
  exact fun hmem => hpath (Path.mem_of_mem_normal hmem (by decide) (by decide))

/-! ## The part before the last name -/

theorem pathNames_parent (path : String) :
    pathNames (Path.parent path) = pathNames (String.ofList (Path.leadingPart path.toList)) := by
  have hslashes : ∃ k, Path.leadingPart path.toList =
      (Path.parent path).toList ++ List.replicate k '/' := by
    rw [Path.parent, Path.parentChars, String.toList_ofList]
    split
    · exact ⟨0, (List.append_nil _).symm⟩
    · exact Path.exists_eq_dropSlashes_append _
  obtain ⟨k, hk⟩ := hslashes
  exact (pathNames_append_slashes (by rw [String.toList_ofList, hk])).symm

/-- A slash at the end has the parent name the same. -/
theorem pathNames_parent_of_slash {path : String} (hname : Path.name path = "") :
    pathNames (Path.parent path) = pathNames path := by
  have hlast : Path.lastPart path.toList = [] := by simpa [Path.name] using hname
  have hparts := Path.leadingPart_append_lastPart path.toList
  rw [hlast, List.append_nil] at hparts
  rw [pathNames_parent, hparts, String.ofList_toList]

theorem pathNames_eq_parent {path : String} (hname : Path.name path ≠ "") :
    pathNames path = pathNames (Path.parent path) ++ [Path.name path] := by
  have hlast : (Path.lastPart path.toList).isEmpty = false := by
    rw [← Bool.not_eq_true, List.isEmpty_iff]
    intro hnil
    exact hname (by rw [Path.name, hnil, String.ofList_nil])
  have hkept : ((Path.segments (Path.lastPart path.toList)).filter fun s => !s.isEmpty).map
      String.ofList = [Path.name path] := by
    rw [Path.segments_of_not_mem (Path.slash_not_mem_lastPart _), List.filter_singleton, hlast]
    rfl
  have hnothing : (Path.segments []).filter (fun s => !s.isEmpty) = [] := by decide
  have hparts := Path.leadingPart_append_lastPart path.toList
  rw [pathNames_parent, pathNames, pathNames, String.toList_ofList]
  by_cases hleading : Path.leadingPart path.toList = []
  · rw [hleading, List.nil_append] at hparts
    rw [hleading, hnothing, ← hkept, hparts]
    rfl
  · obtain ⟨front, hfront⟩ :=
      List.getLast?_eq_some_iff.mp (Path.getLast?_leadingPart hleading)
    rw [hfront, List.append_assoc, List.singleton_append] at hparts
    rw [← hkept, hfront, Path.segments_append_slash, List.filter_append, hnothing,
      List.append_nil, ← List.map_append, ← List.filter_append, ← Path.segments_append_slash,
      hparts]

theorem NamesEntry.name_eq {path name : String} (hpath : NamesEntry path name) :
    Path.name path = name := by
  have hne : Path.name path ≠ "" := by
    intro hempty
    have hlast : Path.lastPart path.toList = [] := by simpa [Path.name] using hempty
    have hparts := Path.leadingPart_append_lastPart path.toList
    rw [hlast, List.append_nil] at hparts
    have hchars : Path.leadingPart path.toList ≠ [] := by
      rw [hparts]
      intro hnil
      have hnames := hpath.last
      rw [String.toList_eq_nil_iff.mp hnil] at hnames
      cases hnames
    have hslash := hpath.no_slash
    rw [endsInSlash, ← hparts, Path.getLast?_leadingPart hchars] at hslash
    cases hslash
  have hlast := hpath.last
  rw [pathNames_eq_parent hne, List.getLast?_concat] at hlast
  exact Option.some.inj hlast

/-- The names of a path are those of the part before the last one, and that one. -/
theorem pathNames_of_splitLast {path head tail : String}
    (hsplit : DiskM.splitLast path = (head, tail)) (htail : tail ≠ "") :
    pathNames path = pathNames head ++ [tail] := by
  unfold DiskM.splitLast at hsplit
  split at hsplit
  · next hslash =>
      obtain ⟨rfl, rfl⟩ := Prod.mk.injEq _ _ _ _ ▸ hsplit
      rw [← pathNames_parent_of_slash (by simpa using hslash)]
      exact pathNames_eq_parent htail
  · obtain ⟨rfl, rfl⟩ := Prod.mk.injEq _ _ _ _ ▸ hsplit
    exact pathNames_eq_parent htail

theorem hasNul_iff_pathNames (path : String) :
    Disk.hasNul path = true ↔ ∃ name ∈ pathNames path, Disk.hasNul name = true := by
  have hchars : ∀ text, Disk.hasNul text = true ↔ '\x00' ∈ text.toList := fun text => by
    rw [Disk.hasNul, List.contains_eq_mem, decide_eq_true_iff]
  rw [hchars]
  constructor
  · intro hmem
    rw [← Path.joinSegments_segments path.toList] at hmem
    rcases Path.mem_joinSegments hmem with hslash | ⟨part, hpart, hmem⟩
    · exact absurd hslash (by decide)
    · refine ⟨String.ofList part, List.mem_map_of_mem (List.mem_filter.mpr ⟨hpart, ?_⟩), ?_⟩
      · cases part with
        | nil => cases hmem
        | cons c part => rfl
      · rwa [hchars, String.toList_ofList]
  · rintro ⟨name, hname, hnul⟩
    obtain ⟨part, hpart, rfl⟩ := List.mem_map.mp hname
    rw [hchars, String.toList_ofList] at hnul
    rw [← Path.joinSegments_segments path.toList]
    exact Path.mem_joinSegments_of_mem (List.mem_filter.mp hpart).1 hnul

theorem hasNul_splitLast {path head tail : String} (hsplit : DiskM.splitLast path = (head, tail))
    (htail : tail ≠ "") : Disk.hasNul path = (Disk.hasNul head || Disk.hasNul tail) := by
  rw [Bool.eq_iff_iff, Bool.or_eq_true, hasNul_iff_pathNames, hasNul_iff_pathNames head,
    pathNames_of_splitLast hsplit htail]
  simp only [List.mem_append, List.mem_singleton, or_and_right, exists_or, exists_eq_left]

/-- The part before the last name is shorter. -/
theorem length_splitLast_lt {path head tail : String}
    (hsplit : DiskM.splitLast path = (head, tail)) (htail : tail ≠ "") :
    head.length < path.length := by
  have hfront := prefix_splitLast path
  rw [hsplit] at hfront
  have hne : head ≠ path := by
    rintro rfl
    simpa using congrArg List.length (pathNames_of_splitLast hsplit htail)
  have hlength : head.toList.length ≠ path.toList.length := fun hsame =>
    hne (String.toList_inj.mp (hfront.eq_of_length hsame))
  rw [String.length_toList, String.length_toList] at hlength
  have hle := hfront.length_le
  rw [String.length_toList, String.length_toList] at hle
  exact Nat.lt_of_le_of_ne hle hlength

/-! ## Fronts -/

/-- A look-up of the path goes through all the names of the front first. -/
structure IsFront (front path : String) : Prop where
  start : ∀ here, startPlace here path = startPlace here front
  names : pathNames front <+: pathNames path

theorem IsFront.refl (path : String) : IsFront path path := ⟨fun _ => rfl, List.prefix_refl _⟩

theorem IsFront.trans {front middle path : String} (h : IsFront front middle)
    (h' : IsFront middle path) : IsFront front path :=
  ⟨fun here => (h'.start here).trans (h.start here), h.names.trans h'.names⟩

theorem isFront_splitLast {path head tail : String}
    (hsplit : DiskM.splitLast path = (head, tail)) (hhead : head ≠ "") (htail : tail ≠ "") :
    IsFront head path := by
  have hfront := prefix_splitLast path
  rw [hsplit] at hfront
  refine ⟨startPlace_of_front hhead hfront, ?_⟩
  rw [pathNames_of_splitLast hsplit htail]
  exact List.prefix_append _ _

theorem isFront_parent {path : String} (hparent : Path.parent path ≠ "") :
    IsFront (Path.parent path) path := by
  refine ⟨startPlace_of_front hparent (prefix_parent path), ?_⟩
  by_cases hname : Path.name path = ""
  · exact ⟨[], by rw [pathNames_parent_of_slash hname, List.append_nil]⟩
  · rw [pathNames_eq_parent hname]
    exact List.prefix_append _ _

/-- Also the empty directory stands before the names that are joined to it: the look-up of a
relative path starts in the same place. -/
theorem isFront_join (directory : String) {name : String} (hname : '/' ∉ name.toList) :
    IsFront directory (Path.join directory name) := by
  refine ⟨fun here => ?_, ?_⟩
  · have habsolute := Path.not_isAbsolute_of_slash_free hname
    by_cases hempty : directory = ""
    · subst hempty
      have hjoin : Path.join "" name = name := by
        rw [Path.join, habsolute]
        simp
      rw [hjoin, startPlace, startPlace, habsolute]
      rfl
    · refine startPlace_of_front hempty ?_ here
      rw [Path.toList_join_of_not_isAbsolute directory habsolute, List.append_assoc]
      exact List.prefix_append _ _
  · rw [pathNames_join_of_slash_free directory hname]
    exact List.prefix_append _ _

end BuildRunner
