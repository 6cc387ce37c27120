import BuildRunner.Jobs
import BuildRunner.Proofs.Console.Lines

/-!
# Reports on commands

The line on a command has its verdict in front of the command, as an escaped value.  It can always
be shown, so that no report fails.
-/

namespace BuildRunner

open Console

variable {κ : Type}

namespace Console

/-- What a line shows while some styles are open, if it can be shown. -/
def told (styles : List (List Char)) (line : List Char) : Option (List Char) :=
  (showPieces styles (piecesFrom 0 0 none line)).toOption

variable {styles : List (List Char)} {line : List Char}

theorem toOption_showPieces_text (text : List Char) (pieces : List Piece) :
    (showPieces styles (.text text :: pieces)).toOption =
      (showPieces styles pieces).toOption.map (text ++ ·) := by
  rw [showPieces]
  cases showPieces styles pieces with
  | ok shown => rfl
  | error fault => rfl

/-- Where a tag stands matters only to the faults that it leads to. -/
theorem toOption_showPieces_tag {pieces others : List Piece}
    (hsame : ∀ styles, (showPieces styles pieces).toOption = (showPieces styles others).toOption)
    (position position' : Nat) (tag : Tag) :
    (showPieces styles (.tag position tag :: pieces)).toOption =
      (showPieces styles (.tag position' tag :: others)).toOption := by
  simp only [showPieces]
  split
  · split
    · split
      · rfl
      · exact hsame _
    · split
      · exact hsame _
      · rfl
  · exact hsame _

/-- Where a text stands matters only to the faults that it has. -/
theorem toOption_showPieces (line : List Char) (styles : List (List Char)) (pending : Nat)
    (inside : Option (List Char)) (position start position' start' : Nat) :
    (showPieces styles (piecesFrom position pending (inside.map (start, ·)) line)).toOption =
      (showPieces styles
        (piecesFrom position' pending (inside.map (start', ·)) line)).toOption := by
  induction line generalizing styles pending inside position start position' start' with
  | nil => rfl
  | cons c line ih =>
      have hrest : ∀ styles pending position position',
          (showPieces styles (piecesFrom position pending none line)).toOption =
            (showPieces styles (piecesFrom position' pending none line)).toOption :=
        fun styles pending position position' => ih styles pending none position 0 position' 0
      cases inside with
      | some body =>
          simp only [Option.map_some, piecesFrom]
          split
          · exact toOption_showPieces_tag (fun styles => hrest styles 0 _ _) start start' _
          · exact ih styles 0 (some (c :: body)) _ start _ start'
      | none =>
          simp only [Option.map_none, piecesFrom]
          split_ifs
          · exact hrest styles _ _ _
          · rw [toOption_showPieces_text, toOption_showPieces_text]
            exact congrArg _ (ih styles 0 (some []) _ position _ position')
          · rw [toOption_showPieces_text, toOption_showPieces_text, hrest]
          · rw [toOption_showPieces_text, toOption_showPieces_text, hrest]
          · rw [toOption_showPieces_text, toOption_showPieces_text, hrest]

theorem toOption_showPieces_eq_told (position : Nat) :
    (showPieces styles (piecesFrom position 0 none line)).toOption = told styles line :=
  toOption_showPieces line styles 0 none position 0 0 0

theorem told_unmarked {text : List Char} (htext : IsUnmarked text) :
    told styles (text ++ line) = (told styles line).map (text ++ ·) := by
  induction text with
  | nil => exact Option.map_id'.symm
  | cons c text ih =>
      obtain ⟨hopen, -, hslash⟩ := htext c List.mem_cons_self
      rw [List.cons_append, told]
      simp only [piecesFrom, if_neg hslash, if_neg hopen]
      rw [toOption_showPieces_text, toOption_showPieces_eq_told,
        ih fun d hd => htext d (List.mem_cons_of_mem c hd), Option.map_map]
      rfl

theorem told_tag {body : List Char} (hbody : IsTagBody body) {styles' : List (List Char)}
    (hstyles : ∀ position pieces,
      showPieces styles (.tag position ⟨body, none⟩ :: pieces) = showPieces styles' pieces) :
    told styles ('[' :: body ++ ']' :: line) = told styles' line := by
  obtain ⟨position, hpieces⟩ := @piecesFrom_inside line body hbody.close_free 1 0 []
  have hsplit : piecesFrom 0 0 none ('[' :: body ++ ']' :: line) =
      .text [] :: .tag 0 ⟨body, none⟩ :: piecesFrom position 0 none line := by
    rw [List.reverse_nil, List.nil_append, hbody.ofBody] at hpieces
    rw [← hpieces]
    simp [piecesFrom, hbody.isTag]
  rw [told, hsplit, toOption_showPieces_text, hstyles, toOption_showPieces_eq_told]
  exact Option.map_id'

/-- What a line in a style shows that is closed in it. -/
theorem told_styled {name text : List Char} (hname : IsStyleName name) (htext : IsUnmarked text) :
    told styles ('[' :: name ++ ']' :: (text ++ ('[' :: '/' :: name ++ ']' :: line))) =
      (told styles line).map (text ++ ·) := by
  rw [told_tag hname.toIsTagBody (showPieces_opening hname), told_unmarked htext,
    told_tag hname.closing (showPieces_closing hname)]

theorem plain_of_told {markup text : String} (htold : told [] markup.toList = some text.toList) :
    plain markup = .ok text := by
  unfold told at htold
  unfold plain
  cases hshown : showPieces [] (piecesFrom 0 0 none markup.toList) with
  | error fault => simp [hshown, Except.toOption] at htold
  | ok shown =>
      obtain rfl : shown = text.toList := by simpa [hshown, Except.toOption] using htold
      exact congrArg _ String.ofList_toList

/-- What is shown of an escaped value. -/
def shownValue (value : String) : String := String.ofList ((told [] (escape value).toList).getD [])

theorem told_escape (value : String) :
    told [] (escape value).toList = some (shownValue value).toList := by
  have hshows : Shows [] 0 ((escape value).toList ++ []) :=
    (Follows.nil []).value value
  obtain ⟨shown, hshown⟩ := hshows 0
  rw [List.append_nil] at hshown
  rw [shownValue, told, hshown, String.toList_ofList]
  rfl

end Console

/-! ## The reports -/

/-- Every command has succeeded or failed. -/
theorem Tally.succeeded_add_failed (failures : List (Option String)) :
    (Tally.ofFailures failures).succeeded + (Tally.ofFailures failures).failed =
      failures.length := by
  have hfailed : (fun failure : Option String => decide ¬failure.isNone = true) =
      Option.isSome := by
    funext failure
    cases failure with
    | none => rfl
    | some _ => rfl
  rw [List.length_eq_countP_add_countP Option.isNone, hfailed]
  rfl

/-- The report on a command: its verdict, and the output of one that has failed. -/
def verdictReport (command : String) : Option String → String
  | none => shown ("OK: " ++ shownValue command) ++ "\n"
  | some errors =>
    shown ("FAILED: " ++ shownValue command) ++ "\n" ++
      if errors.isEmpty then "" else shown (String.ofList (Text.dropTrailing errors.toList) ++ "\n")

/-- The report on how many commands have succeeded and failed. -/
def tallyReport (tally : Tally) : String :=
  shown "\n" ++ (shown "Summary" ++ "\n") ++
    (shown ("Succeeded: " ++ toString tally.succeeded) ++ "\n") ++
    (shown ("Failed:    " ++ toString tally.failed) ++ "\n")

namespace Act

theorem run_print {markup text : String} (hplain : plain markup = .ok text) (m : Machine κ) :
    (print markup).run m = (.ok (), { m with out := m.out ++ (shown text ++ "\n") }) := by
  unfold print shownLine
  rw [hplain]
  rfl

/-- Writes a word in a style, and a value behind it. -/
theorem run_print_styled {mark label : String} {style word : List Char} (hstyle : IsStyleName style)
    (hword : IsUnmarked word)
    (hmark : mark.toList = '[' :: style ++ ']' :: (word ++ ('[' :: '/' :: style ++ [']', ' '])))
    (hlabel : label.toList = word ++ [' ']) (value : String) (m : Machine κ) :
    (print (mark ++ Console.escape value)).run m =
      (.ok (), { m with out := m.out ++ (shown (label ++ shownValue value) ++ "\n") }) := by
  refine run_print (plain_of_told ?_) m
  have hvalue : told [] ([' '] ++ (Console.escape value).toList) =
      some ([' '] ++ (shownValue value).toList) := by
    rw [told_unmarked (by decide), told_escape]
    rfl
  have hline := @told_styled [] ([' '] ++ (Console.escape value).toList) _ _ hstyle hword
  rw [hvalue] at hline
  simpa [hmark, hlabel] using hline

theorem run_writeLine (text : String) (m : Machine κ) :
    (writeLine text).run m = (.ok (), { m with out := m.out ++ shown (text ++ "\n") }) := rfl

theorem run_printVerdict (command : String) (failure : Option String) (m : Machine κ) :
    (printVerdict command failure).run m =
      (.ok (), { m with out := m.out ++ verdictReport command failure }) := by
  cases failure with
  | none =>
      exact @run_print_styled κ "[green]OK:[/green] " "OK: " "green".toList "OK:".toList (by decide)
        (by decide) (by decide) (by decide) command m
  | some errors =>
      have hfailed := @run_print_styled κ "[red]FAILED:[/red] " "FAILED: " "red".toList
        "FAILED:".toList (by decide) (by decide) (by decide) (by decide) command m
      unfold printVerdict reportFailure verdictReport
      dsimp only
      rw [run_bind, hfailed]
      dsimp only
      cases errors.isEmpty with
      | true =>
          rw [if_pos rfl, String.append_empty, Bool.not_true, if_neg (by decide), run_pure]
      | false =>
          have hnone : ¬(false = true) := by decide
          rw [if_neg hnone, Bool.not_false, if_pos rfl, run_writeLine, String.append_assoc]

/-- Reports on commands come one after the other. -/
theorem run_printVerdicts (verdicts : List (String × Option String)) (m : Machine κ) :
    (verdicts.forM fun verdict => printVerdict verdict.1 verdict.2).run m =
      (.ok (), { m with
        out := m.out ++ String.join
          (verdicts.map fun verdict => verdictReport verdict.1 verdict.2) }) := by
  induction verdicts generalizing m with
  | nil =>
      have hnone : String.join ([] : List String) = "" := rfl
      rw [List.map_nil, hnone, String.append_empty]
      rfl
  | cons verdict verdicts ih =>
      rw [List.forM, run_bind, run_printVerdict]
      dsimp only
      rw [ih, List.map_cons, String.join_cons, String.append_assoc]

theorem run_reportTally (tally : Tally) (m : Machine κ) :
    (reportTally tally).run m = (.ok (), { m with out := m.out ++ tallyReport tally }) := by
  have hcount : ∀ {word : String}, IsUnmarked word.toList → ∀ n : Nat,
      plain (word ++ toString n) = .ok (word ++ toString n) := by
    intro word hword n
    refine plain_of_told ?_
    have htold := @told_unmarked [] [] _ (hword.append (isUnmarked_toString n))
    rw [List.append_nil, ← String.toList_append] at htold
    rw [htold]
    exact congrArg some (List.append_nil _)
  have hsummary : plain "[bold]Summary[/bold]" = .ok "Summary" := by
    refine plain_of_told ?_
    have htold := @told_styled [] [] "bold".toList "Summary".toList (by decide) (by decide)
    exact htold.trans (congrArg some (List.append_nil _))
  unfold reportTally
  rw [run_bind, run_writeLine]
  dsimp only
  rw [run_bind, run_print hsummary]
  dsimp only
  rw [run_bind, run_print (hcount (by decide) _)]
  dsimp only
  rw [run_print (hcount (by decide) _)]
  dsimp only
  rw [tallyReport]
  simp only [String.append_assoc, String.empty_append]

end Act

end BuildRunner
