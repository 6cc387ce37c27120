import BuildRunner.Proofs.Console.Reports
import BuildRunner.Proofs.Execution.Captures
import BuildRunner.Proofs.Execution.Remarks

/-!
# Results that are printed

The paths that are listed and the outputs that a run has captured are put on the console behind what
was written before.  The console shows them as they are unless there are tabs in them, which become
blanks, or control characters that are not passed on.  Whatever the texts, each line that is written
stays one line, so that a listing can be taken apart at its line ends.
-/

namespace BuildRunner.Console

/-- A text without tabs and without the control characters that are not passed on. -/
def IsPlain (text : String) : Prop := ∀ c ∈ text.toList, c ≠ '\t' ∧ isDropped c = false

instance (text : String) : Decidable (IsPlain text) :=
  List.decidableBAll (fun c => c ≠ '\t' ∧ isDropped c = false) text.toList

/-! ## Tabs -/

theorem expandTabs_cons_of_ne {c : Char} (hc : c ≠ '\t') (column : Nat) (text : List Char) :
    expandTabs column (c :: text) =
      c :: expandTabs (if c = '\n' then 0 else column + columns c) text := by
  rw [expandTabs]
  exact hc

theorem expandTabs_of_tab_free {text : List Char} (htext : '\t' ∉ text) (column : Nat) :
    expandTabs column text = text := by
  induction text generalizing column with
  | nil => rfl
  | cons c text ih =>
      rw [List.mem_cons, not_or] at htext
      rw [expandTabs_cons_of_ne (Ne.symm htext.1), ih htext.2]

/-- Blanks stand for the tabs, and every other character is kept. -/
theorem mem_expandTabs {c : Char} {column : Nat} {text : List Char}
    (hc : c ∈ expandTabs column text) : c = ' ' ∨ c ∈ text ∧ c ≠ '\t' := by
  induction text generalizing column with
  | nil => cases hc
  | cons d text ih =>
      have hrest : ∀ {column}, c ∈ expandTabs column text → c = ' ' ∨ c ∈ d :: text ∧ c ≠ '\t' :=
        fun hmem => (ih hmem).imp_right fun h => ⟨List.mem_cons_of_mem d h.1, h.2⟩
      by_cases hd : d = '\t'
      · subst hd
        rw [expandTabs] at hc
        rcases List.mem_append.mp hc with hblank | hmem
        · exact Or.inl (List.eq_of_mem_replicate hblank)
        · exact hrest hmem
      · rw [expandTabs_cons_of_ne hd] at hc
        rcases List.mem_cons.mp hc with rfl | hmem
        · exact Or.inr ⟨List.mem_cons_self, hd⟩
        · exact hrest hmem

/-- A line starts at the first column, whatever stands in the line before. -/
theorem expandTabs_append_newline (column : Nat) (line rest : List Char) :
    expandTabs column (line ++ '\n' :: rest) =
      expandTabs column line ++ '\n' :: expandTabs 0 rest := by
  induction line generalizing column with
  | nil => exact expandTabs_cons_of_ne (by decide) column rest
  | cons c line ih =>
      by_cases hc : c = '\t'
      · subst hc
        rw [List.cons_append, expandTabs, expandTabs, ih, List.append_assoc]
      · rw [List.cons_append, expandTabs_cons_of_ne hc, expandTabs_cons_of_ne hc, ih,
          List.cons_append]

/-! ## What is shown -/

theorem toList_shown (text : String) :
    (shown text).toList = expandTabs 0 (text.toList.filter (!isDropped ·)) :=
  String.toList_ofList

theorem isPlain_shown (text : String) : IsPlain (shown text) := by
  intro c hc
  rw [toList_shown] at hc
  rcases mem_expandTabs hc with rfl | ⟨hmem, htab⟩
  · decide
  · exact ⟨htab, by simpa using (List.mem_filter.mp hmem).2⟩

/-- A text is shown as it is exactly if it is plain. -/
theorem shown_eq_iff (text : String) : shown text = text ↔ IsPlain text := by
  constructor
  · intro hshown
    rw [← hshown]
    exact isPlain_shown text
  · intro hplain
    have hkept : text.toList.filter (!isDropped ·) = text.toList := by
      rw [List.filter_eq_self]
      intro c hc
      rw [(hplain c hc).2]
      rfl
    have htab : '\t' ∉ text.toList := fun hmem => (hplain _ hmem).1 rfl
    apply String.toList_injective
    rw [toList_shown, hkept, expandTabs_of_tab_free htab]

example : shown "a\tb\n\tc" = "a       b\n        c" := by decide

theorem shown_line (text : String) : shown (text ++ "\n") = shown text ++ "\n" := by
  have hend : ("\n".toList.filter (!isDropped ·)) = '\n' :: [] := by decide
  apply String.toList_injective
  rw [toList_shown, String.toList_append, List.filter_append, hend, expandTabs_append_newline,
    String.toList_append, toList_shown]
  rfl

theorem newline_not_mem_shown {text : String} (htext : '\n' ∉ text.toList) :
    '\n' ∉ (shown text).toList := by
  intro hmem
  rw [toList_shown] at hmem
  rcases mem_expandTabs hmem with hblank | ⟨hmem, -⟩
  · simp at hblank
  · exact htext (List.mem_filter.mp hmem).1

/-! ## Listings -/

/-- What is shown of texts that are written one a line. -/
def listing (texts : List String) : String := String.join (texts.map fun text => shown text ++ "\n")

/-- What stands between the line ends of a listing, the last of which ends it. -/
def listedLines (listing : String) : List String :=
  ((listing.toList.splitOn '\n').dropLast).map String.ofList

theorem listing_of_plain {texts : List String} (htexts : ∀ text ∈ texts, IsPlain text) :
    listing texts = String.join (texts.map (· ++ "\n")) := by
  refine congrArg String.join (List.map_congr_left fun text htext => ?_)
  rw [(shown_eq_iff text).mpr (htexts text htext)]

/-- A listing has a line for each text that is one line itself. -/
theorem listedLines_listing {texts : List String} (htexts : ∀ text ∈ texts, '\n' ∉ text.toList) :
    listedLines (listing texts) = texts.map shown := by
  have hsplit : (listing texts).toList.splitOn '\n' =
      texts.map (fun text => (shown text).toList) ++ [[]] := by
    induction texts with
    | nil => rfl
    | cons text texts ih =>
        have hfirst := newline_not_mem_shown (htexts text List.mem_cons_self)
        have hrest := ih fun other hother => htexts other (List.mem_cons_of_mem text hother)
        have hlines : (listing (text :: texts)).toList =
            (shown text).toList ++ '\n' :: (listing texts).toList := by
          rw [listing, List.map_cons, String.join_cons, String.toList_append, String.toList_append,
            List.append_assoc]
          rfl
        rw [hlines, List.splitOn_append_cons_self, List.splitOn_eq_singleton hfirst, hrest]
        rfl
  rw [listedLines, hsplit, List.dropLast_concat, List.map_map]
  exact List.map_congr_left fun text _ => String.ofList_toList

end BuildRunner.Console

namespace BuildRunner

open Console

variable {κ : Type}

namespace Act

/-! ## Lists of paths -/

theorem run_forM_writeLine (texts : List String) (m : Machine κ) :
    (texts.forM writeLine).run m = (.ok (), { m with out := m.out ++ listing texts }) := by
  induction texts generalizing m with
  | nil =>
      have hnothing : m.out ++ listing [] = m.out := String.append_empty
      rw [hnothing]
      rfl
  | cons text texts ih =>
      have hlisting : listing (text :: texts) = shown text ++ "\n" ++ listing texts := by
        rw [listing, List.map_cons, String.join_cons]
        rfl
      rw [List.forM, run_bind, run_writeLine]
      dsimp only
      rw [ih, shown_line, hlisting, String.append_assoc]

theorem run_listMatches (pattern : String) (mode : Glob.Mode) (m : Machine κ) :
    (listMatches pattern mode).run m =
      match (matchPaths pattern mode).run m with
      | (.ok paths, m₁) => (.ok paths, { m₁ with out := m₁.out ++ listing paths })
      | (.error failure, m₁) => (.error failure, m₁) := by
  unfold listMatches
  rw [run_bind]
  rcases (matchPaths pattern mode : Act κ (List String)).run m with ⟨failure | paths, m₁⟩
  · rfl
  · dsimp only
    rw [run_bind, run_forM_writeLine]
    rfl

/-! ## Captured outputs -/

variable [Program κ]

/-- A run of which both outputs are wanted has two. -/
theorem streams_of_runBlocking {job : Job} (hwanted : job.wanted = .streams) {m m₁ : Machine κ}
    {result : JobResult} (hrun : (runBlocking job).run m = (.ok result, m₁)) :
    ∃ ok out err, result = .streams ok out err := by
  obtain ⟨code, htells⟩ : ∃ code, job.wanted.Tells code result := by
    obtain ⟨prepared, m₂, hprepare, hrun⟩ := run_bind_eq_ok hrun
    cases prepared with
    | inl found =>
        cases hrun
        exact ⟨_, (tells_prepare hprepare).2⟩
    | inr call =>
        dsimp only at hrun
        rcases ensuring_cases (do
            let code ← runToEnd call.program call.argv call.out call.err
            collect call code : Act κ JobResult) (cleanUp call) m₂ with
          ⟨found, hfound, hall⟩ | ⟨failure, hall⟩
        · obtain ⟨code, m₃, -, hcollect⟩ := run_bind_eq_ok (Prod.ext hfound rfl)
          cases hall.symm.trans hrun
          rw [← (call_of_prepare_inr hprepare).1]
          exact ⟨code, tells_collect hcollect⟩
        · cases hall.symm.trans hrun
  rw [hwanted] at htells
  cases result with
  | streams ok out err => exact ⟨ok, out, err, rfl⟩
  | _ => exact htells.elim

theorem run_runAndShow {command : String} {m m₁ : Machine κ} {ok : Bool} {out err : String}
    (hrun : (runBlocking { wanted := .streams, target := .line command }).run m =
      (.ok (.streams ok out err), m₁)) :
    (runAndShow command).run m =
      (.ok ok, { m₁ with out := m₁.out ++ shown out, err := m₁.err ++ shown err }) := by
  have hnothing : ∀ {written text : String}, text.isEmpty = true → written ++ shown text = written := by
    intro written text htext
    rw [String.isEmpty_iff.mp htext]
    exact String.append_empty
  unfold runAndShow
  rw [run_bind, hrun]
  dsimp only
  cases hout : out.isEmpty with
  | true =>
      cases herr : err.isEmpty with
      | true =>
          rw [hnothing hout, hnothing herr]
          rfl
      | false =>
          rw [hnothing hout]
          rfl
  | false =>
      cases herr : err.isEmpty with
      | true =>
          rw [hnothing herr]
          rfl
      | false => rfl

/-- What is printed is what was found or captured, as the console shows it: the two outputs of a run
on the console and on the error output, there behind the remarks that the run has made itself, and
the paths that a pattern describes as a listing.  A failure is passed on.  A text is shown as it is
exactly if it is plain; so a listing of plain paths has each of them on a line, and is taken apart
into them unless one of them has a line end in it. -/
theorem results_printed_as_shown :
    (∀ (command : String) (m m₁ : Machine κ),
      let job : Job := { wanted := .streams, target := .line command }
      (∀ result, (runBlocking job).run m = (.ok result, m₁) →
        ∃ ok out err remarks, result = .streams ok out err ∧
          (runAndShow command).run m =
            (.ok ok, { m₁ with out := m.out ++ shown out, err := m.err ++ remarks ++ shown err }) ∧
          (job.Completes m → m.inTask = false → asksForTrace m.environment = false →
            remarks = "")) ∧
      ∀ failure, (runBlocking job).run m = (.error failure, m₁) →
        (runAndShow command).run m = (.error failure, m₁)) ∧
    (∀ (pattern : String) (mode : Glob.Mode) (m m₁ : Machine κ),
      (∀ paths, (matchPaths pattern mode).run m = (.ok paths, m₁) →
        ∃ remarks, (listMatches pattern mode).run m =
            (.ok paths, { m₁ with out := m.out ++ listing paths, err := m.err ++ remarks }) ∧
          (asksForTrace m.environment = false → remarks = "")) ∧
      ∀ failure, (matchPaths pattern mode).run m = (.error failure, m₁) →
        (listMatches pattern mode).run m = (.error failure, m₁)) ∧
    (∀ text, shown text = text ↔ IsPlain text) ∧
    ∀ texts : List String, (∀ text ∈ texts, IsPlain text) →
      listing texts = String.join (texts.map (· ++ "\n")) ∧
        ((∀ text ∈ texts, '\n' ∉ text.toList) → listedLines (listing texts) = texts) := by
  refine ⟨fun command m m₁ => ?_, fun pattern mode m m₁ => ?_, shown_eq_iff, fun texts htexts => ?_⟩
  · refine ⟨fun result hrun => ?_, fun failure hrun => ?_⟩
    · obtain ⟨ok, out, err, rfl⟩ := streams_of_runBlocking rfl hrun
      have hremarks := remarks_of_runBlocking { wanted := .streams, target := .line command } m
      rw [stateAfter_of_run hrun] at hremarks
      obtain ⟨remarks, herr, hsilent⟩ := hremarks.exists_err
      refine ⟨ok, out, err, remarks, rfl, ?_, fun hcompletes houtside htrace =>
        hsilent htrace fun hnot => hnot ⟨hcompletes, houtside⟩⟩
      rw [run_runAndShow hrun, hremarks.out, herr]
    · unfold runAndShow
      rw [run_bind, hrun]
  · refine ⟨fun paths hrun => ?_, fun failure hrun => ?_⟩
    · have hremarks : Remarks False m m₁ := (remarks_matchPaths pattern mode).of_run hrun
      obtain ⟨remarks, herr, hsilent⟩ := hremarks.exists_err
      refine ⟨remarks, ?_, fun htrace => hsilent htrace id⟩
      rw [run_listMatches, hrun, ← herr, ← hremarks.out]
    · rw [run_listMatches, hrun]
  · refine ⟨listing_of_plain htexts, fun hlines => ?_⟩
    have hsame : ∀ text ∈ texts, shown text = id text :=
      fun text htext => (shown_eq_iff text).mpr (htexts text htext)
    rw [listedLines_listing hlines, List.map_congr_left hsame, List.map_id]

end Act

/-- A process that writes two columns to its output and a word in brackets to its error output. -/
def aligning : Conduct :=
  .started [(Text.encode "a\tb\n".toList, Text.encode "[x]\n".toList)] (.exits 0)

/-- A machine that has a file with a tab in its name, and the entries of its directory for temporary
files. -/
def aligningMachine (entries : Node.Entries) : Machine (Actor aligning) where
  disk :=
    { tree := .dir [("a\tb", .file [] false none), ("c", .file [] false none),
        ("tmp", .dir entries none)] none
      cwd := .root }
  environment := []

def aligningJob : Job := { wanted := .streams, target := .line "x" }

def aligningCall : Call where
  wanted := .streams
  program := "x"
  argv := []
  capture := .apart (scratchFile "/tmp" 0) (scratchFile "/tmp" 1)
  out := .path (scratchFile "/tmp" 0)
  err := .path (scratchFile "/tmp" 1)

namespace Act

theorem completes_aligning : aligningJob.Completes (aligningMachine []) := by
  have hprepare : resultOf (prepare aligningJob) (aligningMachine []) = .ok (.inr aligningCall) := by
    decide +kernel
  have hstart : resultOf (starting aligningCall)
      (stateAfter (prepare aligningJob) (aligningMachine [])) = .ok (some 0) := by
    decide +kernel
  have hrunning : (stateAfter (starting aligningCall)
      (stateAfter (prepare aligningJob) (aligningMachine []))).answerOf 0 = .running := by
    decide +kernel
  have hended : (stateAfter (starting aligningCall)
      (stateAfter (prepare aligningJob) (aligningMachine []))).tick.answerOf 0 = .exited 0 := by
    decide +kernel
  have hfirst := run_eq (prepare aligningJob) (aligningMachine [])
  rw [hprepare] at hfirst
  generalize stateAfter (prepare aligningJob) (aligningMachine []) = prepared at *
  have hsecond := run_eq (starting aligningCall) prepared
  rw [hstart] at hsecond
  generalize stateAfter (starting aligningCall) prepared = started at *
  have hend := Machine.awaitEnd_of_tick hrunning (by rw [hended]; decide)
  exact .exited hfirst hsecond hend hended

theorem resultOf_aligning :
    resultOf (runBlocking aligningJob) (aligningMachine []) =
      .ok (.streams true "a\tb\n" "[x]\n") := by
  have hmade : (scratchDirectory : Act (Actor aligning) String).run (aligningMachine []) =
      (.ok (Path.join "/tmp" scratchName), aligningMachine [(scratchName, .dir [] none)]) := rfl
  have hscratch : (aligningMachine [(scratchName, .dir [] none)]).OffersScratch "/tmp" :=
    ⟨⟨_, rfl, rfl⟩, by decide, by decide, by decide, by decide⟩
  have hfiles : (aligningMachine [(scratchName, .dir [] none)]).WritesToFiles :=
    ⟨fun file hfile => absurd hfile List.not_mem_nil,
      fun actor hactor => absurd hactor List.not_mem_nil⟩
  have hwords : (Target.line "x").words? = some ("x", []) := by decide
  exact (resultOf_runBlocking_apart hwords hmade hscratch hfiles rfl (by decide) trivial).trans
    (by decide +kernel)

theorem results_printed_as_shown_aligning :
    resultOf (runAndShow "x") (aligningMachine []) = .ok true ∧
      (stateAfter (runAndShow "x") (aligningMachine [])).out = "a       b\n" ∧
      (stateAfter (runAndShow "x") (aligningMachine [])).err = "[x]\n" ∧
      resultOf (listMatches "*b" .files) (aligningMachine []) = .ok ["a\tb"] ∧
      (stateAfter (listMatches "*b" .files) (aligningMachine [])).out = "a       b\n" ∧
      listedLines (listing ["c", " d  "]) = ["c", " d  "] := by
  obtain ⟨hruns, hlists, -, hlistings⟩ := @results_printed_as_shown (Actor aligning) _
  have hrun := run_eq (runBlocking aligningJob) (aligningMachine [])
  rw [resultOf_aligning] at hrun
  obtain ⟨ok, out, err, remarks, hresult, hshow, hsilent⟩ := (hruns "x" _ _).1 _ hrun
  cases hresult
  obtain rfl := hsilent completes_aligning rfl (by decide)
  have hfound := run_eq (matchPaths "*b" .files) (aligningMachine [])
  rw [show resultOf (matchPaths "*b" .files) (aligningMachine []) = .ok ["a\tb"] by decide +kernel]
    at hfound
  obtain ⟨told, hlist, htold⟩ := (hlists "*b" .files _ _).1 _ hfound
  obtain rfl := htold (by decide)
  rw [resultOf_of_run hshow, stateAfter_of_run hshow, resultOf_of_run hlist,
    stateAfter_of_run hlist]
  exact ⟨rfl, by decide +kernel, by decide +kernel, rfl, by decide +kernel,
    (hlistings ["c", " d  "] (by decide)).2 (by decide)⟩

/-- What is listed is not what is found. -/
theorem listed_otherwise_than_found :
    resultOf (listMatches "*b" .files) (aligningMachine []) = .ok ["a\tb"] ∧
      (stateAfter (listMatches "*b" .files) (aligningMachine [])).out ≠ "a\tb\n" := by
  decide +kernel

end Act

end BuildRunner
