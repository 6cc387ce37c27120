import BuildRunner.Console.Markup
import Mathlib.Data.List.Basic
import Mathlib.Data.List.TakeWhile

/-!
# Values in marked-up lines

An escaped value adds no tag to a marked-up line, whatever brackets and backslashes it holds.  Only a
bracket that it leaves open could become a tag, if what stands behind the value closed it.  So a line
can be shown if the text around its values can be, and if no value is followed by such a text.
-/

namespace BuildRunner.Console

/-- A line can be shown behind a number of backslashes, while some styles are open. -/
def Shows (styles : List (List Char)) (pending : Nat) (line : List Char) : Prop :=
  ∀ position, ∃ shown, showPieces styles (piecesFrom position pending none line) = .ok shown

/-- A line can be shown wherever it stands. -/
def Showable (styles : List (List Char)) (line : List Char) : Prop :=
  ∀ pending, Shows styles pending line

/-- A text without brackets and backslashes. -/
def IsUnmarked (text : List Char) : Prop := ∀ c ∈ text, c ≠ '[' ∧ c ≠ ']' ∧ c ≠ '\\'

instance (text : List Char) : Decidable (IsUnmarked text) :=
  decidable_of_iff ((text.all fun c => c != '[' && c != ']' && c != '\\') = true)
    (by simp [IsUnmarked, and_assoc])

variable {styles : List (List Char)} {line : List Char} {pending : Nat}

/-! ## Brackets that are closed behind a text -/

theorem closes_unmarked_append {text : List Char} (htext : IsUnmarked text) :
    closes (text ++ line) = closes line := by
  induction text with
  | nil => rfl
  | cons c text ih =>
      obtain ⟨hopen, hclose, -⟩ := htext c List.mem_cons_self
      have hrest : IsUnmarked text := fun d hd => htext d (List.mem_cons_of_mem c hd)
      have hopen' : (c != '[') = true := by simpa using hopen
      have hclose' : (c == ']') = false := by simpa using hclose
      rw [List.cons_append, closes, hopen', hclose', Bool.false_or, Bool.true_and, ih hrest]

theorem closes_replicate_append (n : Nat) : closes (List.replicate n '\\' ++ line) = closes line := by
  induction n with
  | zero => rfl
  | succ n ih => simp [List.replicate_succ, closes, ih]

theorem isTag_eq_false (hline : closes line = false) : isTag line = false := by
  cases line with
  | nil => rfl
  | cons c line =>
      by_cases hopen : c = '['
      · subst hopen
        rfl
      · have hrest : closes line = false := by
          simp [closes, hopen] at hline
          exact hline.2
        simp [isTag, hrest]

/-- The backslashes of an escaped value do not matter to a bracket before it. -/
theorem closes_escapeFrom_append (hline : closes line = false) (pending : Nat) (value : List Char) :
    closes (escapeFrom pending value ++ line) = closes value := by
  fun_induction escapeFrom pending value with
  | case1 pending => rw [closes_replicate_append, hline]; rfl
  | case2 pending rest ih => simpa [closes] using ih
  | case3 pending rest ih =>
      rw [List.append_assoc]
      split
      · rw [closes_replicate_append]; rfl
      · rw [closes_replicate_append]; rfl
  | case4 pending c rest _ _ ih =>
      rw [List.append_assoc, closes_replicate_append, List.cons_append, closes, ih, closes]

theorem isTag_escapeFrom_append (hline : closes line = false) {value : List Char}
    (hvalue : isTag value = false) : isTag (escapeFrom 0 value ++ line) = false := by
  cases value with
  | nil => exact isTag_eq_false hline
  | cons c rest =>
      by_cases hstart : startsTag c = true
      · have hrest : closes rest = false := by simpa [isTag, hstart] using hvalue
        have hplain : escapeFrom 0 (c :: rest) = c :: escapeFrom 0 rest := by
          rw [escapeFrom]
          · rfl
          · rintro rfl
            simp [startsTag] at hstart
          · rintro rfl
            simp [startsTag] at hstart
        rw [hplain, List.cons_append, isTag, closes_escapeFrom_append hline, hrest, Bool.and_false]
      · have hhead : ∀ (n : Nat) (value : List Char), ∃ rest', escapeFrom (n + 1) value ++ line =
            '\\' :: rest' := by
          intro n value
          generalize hpending : n + 1 = pending
          fun_induction escapeFrom pending value generalizing n with
          | case1 pending => subst hpending; exact ⟨_, rfl⟩
          | case2 pending rest ih => exact ih (n + 1) (by omega)
          | case3 pending rest ih =>
              subst hpending
              split
              · exact ⟨_, rfl⟩
              · exact ⟨_, rfl⟩
          | case4 pending c rest _ _ ih => subst hpending; exact ⟨_, rfl⟩
        have hbackslash : ∀ rest', isTag ('\\' :: rest') = false := fun _ => rfl
        by_cases hslash : c = '\\'
        · subst hslash
          obtain ⟨rest', hrest'⟩ := hhead 0 rest
          rw [escapeFrom, hrest', hbackslash]
        · by_cases hopen : c = '['
          · subst hopen
            rw [escapeFrom]
            split
            · exact hbackslash _
            · rfl
          · have hplain : escapeFrom 0 (c :: rest) = c :: escapeFrom 0 rest := by
              rw [escapeFrom]
              · rfl
              · exact hslash
              · exact hopen
            rw [hplain, List.cons_append, isTag, Bool.eq_false_iff.mpr hstart, Bool.false_and]

/-! ## Lines that can be shown -/

theorem exists_showPieces_text {text : List Char} {pieces : List Piece}
    (hpieces : ∃ shown, showPieces styles pieces = .ok shown) :
    ∃ shown, showPieces styles (.text text :: pieces) = .ok shown := by
  obtain ⟨shown, hshown⟩ := hpieces
  exact ⟨text ++ shown, by simp [showPieces, hshown, bind, Except.bind, pure, Except.pure]⟩

theorem showable_nil : Showable styles [] := fun pending position =>
  ⟨List.replicate pending '\\', by simp [piecesFrom, showPieces, bind, Except.bind, pure, Except.pure]⟩

theorem Shows.backslash (hline : Shows styles (pending + 1) line) :
    Shows styles pending ('\\' :: line) := by
  intro position
  simp only [piecesFrom, if_true]
  exact hline (position + 1)

theorem Showable.backslash (hline : Showable styles line) : Showable styles ('\\' :: line) :=
  fun _ => (hline _).backslash

theorem Shows.backslashes {n : Nat} (hline : Shows styles (pending + n) line) :
    Shows styles pending (List.replicate n '\\' ++ line) := by
  induction n generalizing pending with
  | zero => exact hline
  | succ n ih =>
      rw [List.replicate_succ, List.cons_append]
      apply Shows.backslash
      apply ih
      rwa [Nat.add_right_comm, Nat.add_assoc]

theorem Shows.character {c : Char} (hslash : c ≠ '\\') (hopen : c ≠ '[') (hline : Shows styles 0 line) :
    Showable styles (c :: line) := by
  intro pending position
  simp only [piecesFrom, if_neg hslash, if_neg hopen]
  exact exists_showPieces_text (hline (position + 1))

theorem Shows.unmarked {text : List Char} (htext : IsUnmarked text) (hne : text ≠ [])
    (hline : Shows styles 0 line) : Showable styles (text ++ line) := by
  induction text with
  | nil => exact absurd rfl hne
  | cons c text ih =>
      obtain ⟨hopen, -, hslash⟩ := htext c List.mem_cons_self
      apply Shows.character hslash hopen
      by_cases hrest : text = []
      · subst hrest
        exact hline
      · exact ih (fun d hd => htext d (List.mem_cons_of_mem c hd)) hrest 0

/-- An opening bracket that begins no tag. -/
theorem Shows.bracket (htag : isTag line = false) (hline : Shows styles 0 line) :
    Showable styles ('[' :: line) := by
  intro pending position
  simp only [piecesFrom, htag]
  exact exists_showPieces_text (hline (position + 1))

/-- An opening bracket behind an odd number of backslashes. -/
theorem Shows.escaped (hodd : pending % 2 = 1) (hline : Shows styles 0 line) :
    Shows styles pending ('[' :: line) := by
  intro position
  cases htag : isTag line with
  | false => exact Shows.bracket htag hline pending position
  | true =>
      simp only [piecesFrom, htag, hodd]
      exact exists_showPieces_text (hline (position + 1))

theorem shows_escapeFrom_append (hclosed : closes line = false) (hline : Showable styles line)
    (pending : Nat) (value : List Char) : Shows styles 0 (escapeFrom pending value ++ line) := by
  fun_induction escapeFrom pending value with
  | case1 pending => exact Shows.backslashes (hline _)
  | case2 pending rest ih => exact ih
  | case3 pending rest ih =>
      rw [List.append_assoc]
      split
      · apply Shows.backslashes
        apply Shows.escaped (by omega)
        exact ih
      · next htag =>
          apply Shows.backslashes
          apply Shows.bracket
          · exact isTag_escapeFrom_append hclosed (by simpa using htag)
          · exact ih
  | case4 pending c rest hslash hopen ih =>
      rw [List.append_assoc]
      apply Shows.backslashes
      exact Shows.character hslash hopen ih _

/-- A value ends with at most one backslash more. -/
theorem toList_escape (value : String) :
    (escape value).toList = escapeFrom 0 value.toList ∨
      (escape value).toList = escapeFrom 0 value.toList ++ ['\\'] := by
  unfold escape
  dsimp only
  split
  · exact Or.inr String.toList_ofList
  · split
    · exact Or.inl String.toList_ofList
    · exact Or.inr String.toList_ofList
  · exact Or.inl String.toList_ofList

/-- An escaped value can be shown before a text that closes no bracket of it. -/
theorem Showable.value (hclosed : closes line = false) (hline : Showable styles line)
    (value : String) : Shows styles 0 ((escape value).toList ++ line) := by
  rcases toList_escape value with hvalue | hvalue
  · rw [hvalue]
    exact shows_escapeFrom_append hclosed hline 0 _
  · rw [hvalue, List.append_assoc]
    exact shows_escapeFrom_append (by simpa [closes] using hclosed) hline.backslash 0 _

/-! ## Tags -/

theorem piecesFrom_inside {body : List Char} (hbody : ']' ∉ body) (position start : Nat)
    (seen : List Char) :
    ∃ position', piecesFrom position 0 (some (start, seen)) (body ++ ']' :: line) =
      .tag start (.ofBody (seen.reverse ++ body)) :: piecesFrom position' 0 none line := by
  induction body generalizing position seen with
  | nil => exact ⟨position + 1, by simp [piecesFrom]⟩
  | cons c body ih =>
      rw [List.mem_cons, not_or] at hbody
      obtain ⟨position', hpieces⟩ := ih hbody.2 (position + 1) (c :: seen)
      refine ⟨position', ?_⟩
      simp only [List.cons_append, piecesFrom, if_neg (Ne.symm hbody.1), hpieces]
      simp

theorem closes_append_bracket {body : List Char} (hbody : '[' ∉ body) :
    closes (body ++ ']' :: line) = true := by
  induction body with
  | nil => simp [closes]
  | cons c body ih =>
      rw [List.mem_cons, not_or] at hbody
      have hopen : (c != '[') = true := by simpa using Ne.symm hbody.1
      rw [List.cons_append, closes, ih hbody.2, hopen, Bool.true_and, Bool.or_true]

/-- The text between the brackets of a tag. -/
structure IsTagBody (body : List Char) : Prop where
  starts : body.head?.any startsTag = true
  open_free : '[' ∉ body
  close_free : ']' ∉ body
  plain : '=' ∉ body

theorem IsTagBody.isTag {body : List Char} (hbody : IsTagBody body) :
    isTag (body ++ ']' :: line) = true := by
  obtain ⟨hstarts, hopen, -, -⟩ := hbody
  cases body with
  | nil => simp at hstarts
  | cons c body =>
      have hstarts' : startsTag c = true := by simpa using hstarts
      have hrest : closes (body ++ ']' :: line) = true :=
        closes_append_bracket fun hmem => hopen (List.mem_cons_of_mem c hmem)
      rw [List.cons_append, Console.isTag, hstarts', hrest, Bool.true_and]

theorem IsTagBody.ofBody {body : List Char} (hbody : IsTagBody body) :
    Tag.ofBody body = ⟨body, none⟩ := by
  have hnone : body.dropWhile (· != '=') = [] := by
    apply List.dropWhile_eq_nil_iff.mpr
    intro c hc
    have hne : c ≠ '=' := by
      rintro rfl
      exact hbody.plain hc
    simpa using hne
  rw [Tag.ofBody, hnone]

/-- A tag can be shown if what stands behind it can be, in the styles that it leaves open. -/
theorem shows_tag {body : List Char} (hbody : IsTagBody body) {styles' : List (List Char)}
    (hstyles : ∀ position pieces,
      showPieces styles (.tag position ⟨body, none⟩ :: pieces) = showPieces styles' pieces)
    (hline : Shows styles' 0 line) (heven : pending % 2 = 0) :
    Shows styles pending ('[' :: body ++ ']' :: line) := by
  intro position
  obtain ⟨position', hpieces⟩ :=
    @piecesFrom_inside line body hbody.close_free (position + 1) position []
  simp only [List.cons_append, piecesFrom, hbody.isTag, heven, hpieces]
  apply exists_showPieces_text
  rw [List.reverse_nil, List.nil_append, hbody.ofBody, hstyles]
  exact hline position'

/-- A name that a tag opens a style by. -/
structure IsStyleName (name : List Char) : Prop extends IsTagBody name where
  opens : name.head? ≠ some '/'
  not_blank : Text.trim name ≠ []

instance (name : List Char) : Decidable (IsStyleName name) :=
  decidable_of_iff (name.head?.any startsTag = true ∧ '[' ∉ name ∧ ']' ∉ name ∧ '=' ∉ name ∧
      name.head? ≠ some '/' ∧ Text.trim name ≠ [])
    ⟨fun ⟨hstarts, hopen, hclose, hplain, hopens, hblank⟩ =>
        ⟨⟨hstarts, hopen, hclose, hplain⟩, hopens, hblank⟩,
      fun hname => ⟨hname.starts, hname.open_free, hname.close_free, hname.plain, hname.opens,
        hname.not_blank⟩⟩

theorem showPieces_opening {name : List Char} (hname : IsStyleName name) (position : Nat)
    (pieces : List Piece) :
    showPieces styles (.tag position ⟨name, none⟩ :: pieces) =
      showPieces (canonicalStyle name :: styles) pieces := by
  have hopens := hname.opens
  cases name with
  | nil => rfl
  | cons c name =>
      have hslash : c ≠ '/' := by simpa using hopens
      simp [showPieces, hslash]

theorem showPieces_closing {name : List Char} (hname : IsStyleName name) (position : Nat)
    (pieces : List Piece) :
    showPieces (canonicalStyle name :: styles) (.tag position ⟨'/' :: name, none⟩ :: pieces) =
      showPieces styles pieces := by
  simp [showPieces, hname.not_blank]

theorem IsStyleName.closing {name : List Char} (hname : IsStyleName name) :
    IsTagBody ('/' :: name) :=
  ⟨rfl, by simpa using hname.open_free, by simpa using hname.close_free, by simpa using hname.plain⟩

theorem Shows.opened {name : List Char} (hname : IsStyleName name)
    (hline : Shows (canonicalStyle name :: styles) 0 line) :
    Shows styles 0 ('[' :: name ++ ']' :: line) :=
  shows_tag hname.toIsTagBody (showPieces_opening hname) hline rfl

theorem Shows.closed {name : List Char} (hname : IsStyleName name) (hline : Shows styles 0 line)
    (heven : pending % 2 = 0) :
    Shows (canonicalStyle name :: styles) pending ('[' :: '/' :: name ++ ']' :: line) :=
  shows_tag hname.closing (showPieces_closing hname) hline heven

theorem showable_of_open_free (hline : '[' ∉ line) : Showable styles line := by
  induction line with
  | nil => exact showable_nil
  | cons c line ih =>
      rw [List.mem_cons, not_or] at hline
      by_cases hslash : c = '\\'
      · subst hslash
        exact (ih hline.2).backslash
      · exact Shows.character hslash (Ne.symm hline.1) (ih hline.2 0)

/-- At the end of a line the tag that closes a style may itself be escaped. -/
theorem showable_closed {name : List Char} (hname : IsStyleName name) :
    Showable (canonicalStyle name :: styles) ('[' :: '/' :: name ++ [']']) := by
  intro pending
  rcases Nat.mod_two_eq_zero_or_one pending with heven | hodd
  · exact Shows.closed hname (showable_nil 0) heven
  · apply Shows.escaped hodd
    exact showable_of_open_free (by simpa using hname.open_free) 0

end BuildRunner.Console
