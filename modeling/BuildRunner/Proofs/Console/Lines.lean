import BuildRunner.Match
import BuildRunner.Proofs.Console.Escaping
import BuildRunner.Proofs.Machine.Running

/-!
# Lines that are always shown

The lines that are written about a pattern or a command hold it as an escaped value, so that they
can be shown whatever it is, and writing them never fails.
-/

namespace BuildRunner

open Console

variable {κ : Type}

namespace Console

theorem exists_plain {markup : String} (hmarkup : Shows [] 0 markup.toList) :
    ∃ text, plain markup = .ok text := by
  obtain ⟨shown, hshown⟩ := hmarkup 0
  exact ⟨String.ofList shown, by rw [plain, hshown]; rfl⟩

theorem isUnmarked_toString (n : Nat) : IsUnmarked (toString n).toList := by
  intro c hc
  have hrepr : (toString n).toList = Nat.toDigits 10 n := by simp
  rw [hrepr] at hc
  have hdigit : c.isDigit = true := Nat.isDigit_of_mem_toDigits (by decide) (by decide) hc
  refine ⟨?_, ?_, ?_⟩
  · rintro rfl
    cases hdigit
  · rintro rfl
    cases hdigit
  · rintro rfl
    cases hdigit

theorem IsUnmarked.append {text other : List Char} (htext : IsUnmarked text)
    (hother : IsUnmarked other) : IsUnmarked (text ++ other) := by
  intro c hc
  rcases List.mem_append.mp hc with hc | hc
  · exact htext c hc
  · exact hother c hc

/-! ## Texts behind a value -/

/-- A text that may stand behind a value: it can be shown, and it closes no bracket of the value. -/
structure Follows (styles : List (List Char)) (line : List Char) : Prop where
  closed : closes line = false
  showable : Showable styles line

theorem Follows.nil (styles : List (List Char)) : Follows styles [] := ⟨rfl, showable_nil⟩

theorem Follows.words {styles : List (List Char)} {text line : List Char}
    (htext : IsUnmarked text) (hne : text ≠ []) (hclosed : closes line = false)
    (hline : Shows styles 0 line) : Follows styles (text ++ line) := by
  refine ⟨?_, hline.unmarked htext hne⟩
  rw [closes_unmarked_append htext, hclosed]

theorem Follows.value {styles : List (List Char)} {line : List Char} (hline : Follows styles line)
    (value : String) : Shows styles 0 ((escape value).toList ++ line) :=
  Showable.value hline.closed hline.showable value

/-! ## Remarks -/

/-- The style of a remark. -/
def remarkStyles : List (List Char) := [canonicalStyle "dim".toList]

/-- The end of a remark. -/
def remarkEnd : List Char := "[/dim]".toList

theorem follows_remarkEnd : Follows remarkStyles remarkEnd :=
  ⟨by decide, showable_closed (by decide)⟩

/-- A remark can be shown if its text can be in front of the end. -/
theorem shows_remark {text : String} (htext : Shows remarkStyles 0 (text.toList ++ remarkEnd)) :
    Shows [] 0 ("[dim]buildos: " ++ text ++ "[/dim]").toList := by
  have hstart : "[dim]buildos: ".toList = '[' :: "dim".toList ++ ']' :: "buildos: ".toList := by
    decide
  have hparts : ("[dim]buildos: " ++ text ++ "[/dim]").toList =
      '[' :: "dim".toList ++ ']' :: ("buildos: ".toList ++ (text.toList ++ remarkEnd)) := by
    rw [String.toList_append, String.toList_append, hstart, List.append_assoc, List.append_assoc]
    rfl
  rw [hparts]
  apply Shows.opened (by decide)
  exact htext.unmarked (by decide) (by decide) 0

end Console

namespace Act

theorem run_printErr {markup text : String} (hplain : plain markup = .ok text) (m : Machine κ) :
    (printErr markup).run m = (.ok (), { m with err := m.err ++ (shown text ++ "\n") }) := by
  unfold printErr shownLine
  rw [hplain]
  rfl

theorem exists_run_remark {text : String} (htext : Shows remarkStyles 0 (text.toList ++ remarkEnd))
    (m : Machine κ) : ∃ line, (remark text).run m = (.ok (), { m with err := m.err ++ line }) := by
  obtain ⟨shown, hshown⟩ := exists_plain (shows_remark htext)
  exact ⟨_, run_printErr hshown m⟩

/-- The remark on a match is shown whatever its pattern is. -/
theorem exists_run_matchRemark (pattern : String) (n : Nat) (m : Machine κ) :
    ∃ line,
      (remark ("match " ++ Console.escape pattern ++ " -> " ++ toString n ++ " path(s)")).run m =
        (.ok (), { m with err := m.err ++ line }) := by
  have hcount : IsUnmarked (" -> ".toList ++ ((toString n).toList ++ " path(s)".toList)) :=
    .append (by decide) (.append (isUnmarked_toString n) (by decide))
  have hbehind : Follows remarkStyles
      ((" -> ".toList ++ ((toString n).toList ++ " path(s)".toList)) ++ remarkEnd) :=
    .words hcount (by simp) follows_remarkEnd.closed (follows_remarkEnd.showable 0)
  have hshows : Shows remarkStyles 0 ("match ".toList ++ ((Console.escape pattern).toList ++
      ((" -> ".toList ++ ((toString n).toList ++ " path(s)".toList)) ++ remarkEnd))) :=
    (hbehind.value pattern).unmarked (by decide) (by decide) 0
  apply exists_run_remark
  simpa only [String.toList_append, List.append_assoc] using hshows

theorem run_verbose (m : Machine κ) :
    (verbose : Act κ Bool).run m = (.ok (asksForTrace m.environment), m) := rfl

/-- A match gives what its pattern describes, and writes no more than a remark. -/
theorem run_matchPaths (pattern : String) (mode : Glob.Mode) (m : Machine κ) :
    ∃ line, (matchPaths pattern mode).run m =
      (if pattern.isEmpty then .ok []
        else (m.disk.matchPattern pattern mode).mapError fun code => .system code none none,
        { m with err := m.err ++ line }) := by
  have hsame : m = { m with err := m.err ++ "" } := by simp
  unfold matchPaths
  by_cases hempty : pattern.isEmpty = true
  · rw [if_pos hempty, if_pos hempty]
    exact ⟨"", by rw [← hsame]; rfl⟩
  · rw [if_neg hempty, if_neg hempty, run_bind, run_get]
    dsimp only
    cases m.disk.matchPattern pattern mode with
    | error code => exact ⟨"", by rw [← hsame]; rfl⟩
    | ok paths =>
        obtain ⟨line, hremark⟩ := exists_run_matchRemark pattern paths.length m
        dsimp only
        rw [run_bind, run_verbose]
        dsimp only
        split
        · refine ⟨line, ?_⟩
          rw [run_bind, hremark]
          rfl
        · exact ⟨"", by rw [← hsame]; rfl⟩

end Act

end BuildRunner
