import BuildRunner.Glob.Pattern
import BuildRunner.Proofs.Glob.Matching
import Mathlib.Data.List.Basic

/-!
# The written form of a glob

`writtenGlob` rewrites a glob in passes over its text: it escapes, marks the pairs of stars, marks
the single stars, and puts the notation in the place of the marks.  Read token by token, the passes
write one item for each token, because an escaped character holds neither a star nor a mark.  The
notation can be read back, so what a glob compiles to is exactly its list of tokens, and that list
matches exactly the language of the glob.
-/

namespace BuildRunner.Glob

open Text

/-! ## The passes, token by token -/

theorem isSpecial_star : isSpecial '*' = true := by decide

theorem escapeLiteral_ne_nil (c : Char) : escapeLiteral c ≠ [] := by
  unfold escapeLiteral
  split
  · simp
  · split <;> simp

/-- The characters with a meaning of their own in the passes. -/
def IsPassChar (x : Char) : Prop := x = '*' ∨ x = deepMark ∨ x = segmentMark

/-- No pass finds anything to do in an escaped character. -/
theorem not_mem_escapeLiteral {x c : Char} (hx : IsPassChar x) (hc : c ≠ '*') :
    x ∉ escapeLiteral c := by
  unfold escapeLiteral
  split
  next hmark =>
      rcases hmark with rfl | rfl <;> rcases hx with rfl | rfl | rfl <;> decide
  next hmark =>
      have hne : x ≠ c := by
        rintro rfl
        rcases hx with hx | hx | hx
        · exact hc hx
        · exact hmark (Or.inl hx)
        · exact hmark (Or.inr hx)
      have hback : x ≠ '\\' := by
        rcases hx with rfl | rfl | rfl <;> decide
      split <;> simp [hne, hback]

theorem markPairs_cons_of_ne {mark x : Char} (hx : x ≠ '*') (s : List Char) :
    markPairs mark (x :: s) = x :: markPairs mark s := by
  rw [markPairs]
  intro r hr
  exact fun _ => hx hr

theorem markPairs_star_of_head_ne {mark : Char} {s : List Char} (hs : s.head? ≠ some '*') :
    markPairs mark ('*' :: s) = '*' :: markPairs mark s := by
  rw [markPairs]
  rintro r - rfl
  exact hs rfl

theorem markPairs_append_of_not_mem {mark : Char} {a : List Char} (ha : '*' ∉ a) (b : List Char) :
    markPairs mark (a ++ b) = a ++ markPairs mark b := by
  induction a with
  | nil => rfl
  | cons x a ih =>
      rw [List.mem_cons, not_or] at ha
      rw [List.cons_append, markPairs_cons_of_ne (fun hx => ha.1 hx.symm), ih ha.2,
        List.cons_append]

theorem substitute_of_not_mem {c : Char} {text : List Char} (hc : c ∉ text)
    (replacement : List Char) : substitute c replacement text = text := by
  induction text with
  | nil => rfl
  | cons x text ih =>
      rw [List.mem_cons, not_or] at hc
      have hx : x ≠ c := fun h => hc.1 h.symm
      have htail := ih hc.2
      unfold substitute at htail ⊢
      rw [List.flatMap_cons, if_neg hx, htail]
      rfl

theorem substitute_flatMap {α : Type} (c : Char) (replacement : List Char) (items : List α)
    (f : α → List Char) :
    substitute c replacement (items.flatMap f) =
      items.flatMap fun a => substitute c replacement (f a) := by
  unfold substitute
  rw [List.flatMap_assoc]

/-- A token once the pairs of stars are marked. -/
def Token.marked : Token → List Char
  | .deep => [deepMark]
  | .segment => ['*']
  | .literal c => escapeLiteral c

theorem tokens_cons_of_ne {c : Char} (hc : c ≠ '*') (glob : List Char) :
    tokens (c :: glob) = .literal c :: tokens glob := by
  rw [tokens, if_neg hc]
  exact fun r h _ => hc h

theorem tokens_star_of_head_ne {glob : List Char} (hglob : glob.head? ≠ some '*') :
    tokens ('*' :: glob) = .segment :: tokens glob := by
  rw [tokens, if_pos rfl]
  rintro r - rfl
  exact hglob rfl

/-- A literal token is no star. -/
theorem ne_star_of_literal_mem_tokens {c : Char} {glob : List Char}
    (hmem : Token.literal c ∈ tokens glob) : c ≠ '*' := by
  induction glob using tokens.induct with
  | case1 => simp [tokens] at hmem
  | case2 r ih =>
      rw [tokens, List.mem_cons] at hmem
      exact ih (hmem.resolve_left (by simp))
  | case3 x r hpair ih =>
      rw [tokens, List.mem_cons] at hmem
      · rcases hmem with heq | hmem
        · split at heq
          · simp at heq
          · simp only [Token.literal.injEq] at heq
            rwa [heq]
        · exact ih hmem
      · exact hpair

theorem head?_flatMap_escapeGlobChar_ne {glob : List Char} (hglob : glob.head? ≠ some '*') :
    (glob.flatMap escapeGlobChar).head? ≠ some '*' := by
  cases glob with
  | nil => simp
  | cons c glob =>
      have hc : c ≠ '*' := by simpa using hglob
      rw [List.flatMap_cons, escapeGlobChar, if_neg hc]
      have hstar := not_mem_escapeLiteral (Or.inl rfl) hc
      cases hescaped : escapeLiteral c with
      | nil => exact absurd hescaped (escapeLiteral_ne_nil c)
      | cons x rest =>
          rw [hescaped, List.mem_cons, not_or] at hstar
          simpa using fun h : x = '*' => hstar.1 h.symm

/-- The first two passes mark what the tokens are. -/
theorem markPairs_flatMap_escapeGlobChar (glob : List Char) :
    markPairs deepMark (glob.flatMap escapeGlobChar) = (tokens glob).flatMap Token.marked := by
  induction glob using tokens.induct with
  | case1 => rfl
  | case2 r ih =>
      have hescaped : ('*' :: '*' :: r).flatMap escapeGlobChar =
          '*' :: '*' :: r.flatMap escapeGlobChar := rfl
      rw [hescaped, markPairs, tokens, List.flatMap_cons, ih]
      rfl
  | case3 c r hpair ih =>
      by_cases hc : c = '*'
      · subst c
        have hr : r.head? ≠ some '*' := by
          cases r with
          | nil => simp
          | cons x r =>
              intro hx
              simp only [List.head?_cons, Option.some.injEq] at hx
              exact hpair r rfl (by rw [hx])
        have hescaped : ('*' :: r).flatMap escapeGlobChar = '*' :: r.flatMap escapeGlobChar := rfl
        rw [hescaped, markPairs_star_of_head_ne (head?_flatMap_escapeGlobChar_ne hr), ih,
          tokens_star_of_head_ne hr, List.flatMap_cons]
        rfl
      · rw [List.flatMap_cons, escapeGlobChar, if_neg hc,
          markPairs_append_of_not_mem (not_mem_escapeLiteral (Or.inl rfl) hc), ih,
          tokens_cons_of_ne hc, List.flatMap_cons]
        rfl

/-- The passes write the items of a glob. -/
theorem writtenGlob_eq_source (glob : List Char) :
    writtenGlob glob = (Regex.ofGlob glob).source := by
  unfold writtenGlob Regex.ofGlob Regex.source
  dsimp only
  rw [markPairs_flatMap_escapeGlobChar, List.flatMap_map]
  simp only [substitute_flatMap]
  apply List.flatMap_congr
  intro t ht
  cases t with
  | deep => rfl
  | segment => rfl
  | literal c =>
      have hc := ne_star_of_literal_mem_tokens ht
      have hitem : Item.source (Regex.ofToken (.literal c)) = escapeLiteral c := by
        simp [Item.source, Regex.ofToken, CharClass.source]
      rw [hitem, Token.marked,
        substitute_of_not_mem (not_mem_escapeLiteral (Or.inl rfl) hc),
        substitute_of_not_mem (not_mem_escapeLiteral (Or.inr (Or.inl rfl)) hc),
        substitute_of_not_mem (not_mem_escapeLiteral (Or.inr (Or.inr rfl)) hc)]

/-! ## Reading the notation back -/

/-- The classes that the notation of a glob holds. -/
def CharClass.InGlob : CharClass → Prop
  | .exactly _ => True
  | .allBut c => c = '\n' ∨ c = '/'

theorem ne_of_isSpecial_eq_false {c x : Char} (hc : isSpecial c = false)
    (hx : isSpecial x = true) : c ≠ x := by
  rintro rfl
  rw [hc] at hx
  contradiction

namespace Regex

theorem readClass?_plain {c : Char} (hc : isSpecial c = false) (rest : List Char) :
    readClass? (c :: rest) = some (.exactly c, rest) := by
  have hdot : c ≠ '.' := ne_of_isSpecial_eq_false hc (by decide)
  have hopen : c ≠ '[' := ne_of_isSpecial_eq_false hc (by decide)
  have hback : c ≠ '\\' := ne_of_isSpecial_eq_false hc (by decide)
  unfold readClass?
  split
  · contradiction
  · next heq => exact absurd (List.cons.inj heq).1 hdot
  · next heq => exact absurd (List.cons.inj heq).1 hopen
  · next heq => exact absurd (List.cons.inj heq).1 hback
  · next heq => exact absurd (List.cons.inj heq).1 hback
  · next heq =>
      obtain ⟨rfl, rfl⟩ := List.cons.inj heq
      rw [hc]
      rfl

theorem readClass?_backslash {c : Char} (hc : isSpecial c = true) (rest : List Char) :
    readClass? ('\\' :: c :: rest) = some (.exactly c, rest) := by
  have hx : c ≠ 'x' := by
    rintro rfl
    exact absurd hc (by decide)
  simp [readClass?, hx, hc]

/-- A class at the head of the notation is read back, whatever follows it. -/
theorem readClass?_source_append {chars : CharClass} (hchars : chars.InGlob) (rest : List Char) :
    readClass? (chars.source ++ rest) = some (chars, rest) := by
  cases chars with
  | allBut c =>
      rcases hchars with rfl | rfl
      · rfl
      · have hsource : CharClass.source (.allBut '/') = ['[', '^', '/', ']'] := by decide
        rw [hsource]
        rfl
  | exactly c =>
      rw [CharClass.source]
      by_cases hmark : c = '\x01' ∨ c = '\x02'
      · rcases hmark with rfl | rfl
        · have hsource : escapeLiteral '\x01' = ['\\', 'x', '0', '1'] := by decide
          rw [hsource]
          rfl
        · have hsource : escapeLiteral '\x02' = ['\\', 'x', '0', '2'] := by decide
          rw [hsource]
          rfl
      · rw [escapeLiteral, if_neg hmark]
        cases hc : isSpecial c with
        | true =>
            rw [if_pos rfl]
            exact readClass?_backslash hc rest
        | false =>
            rw [if_neg (by decide)]
            exact readClass?_plain hc rest

/-- No class is written with a star at its head. -/
theorem source_ne_nil_and_head?_ne_star (chars : CharClass) :
    chars.source ≠ [] ∧ chars.source.head? ≠ some '*' := by
  cases chars with
  | allBut c =>
      rw [CharClass.source]
      split <;> simp
  | exactly c =>
      refine ⟨escapeLiteral_ne_nil c, ?_⟩
      rw [CharClass.source, escapeLiteral]
      split
      · simp
      · cases hc : isSpecial c with
        | true => simp
        | false => simpa using ne_of_isSpecial_eq_false hc isSpecial_star

theorem source_cons (item : Item) (regex : Regex) :
    source (item :: regex) = item.source ++ source regex := rfl

theorem head?_source_ne_star (regex : Regex) : (source regex).head? ≠ some '*' := by
  cases regex with
  | nil => simp [source]
  | cons item regex =>
      obtain ⟨hnil, hhead⟩ := source_ne_nil_and_head?_ne_star item.chars
      rw [source_cons, Item.source, List.append_assoc]
      cases hsource : item.chars.source with
      | nil => exact absurd hsource hnil
      | cons x rest =>
          rw [hsource] at hhead
          simpa using hhead

theorem length_le_length_source (regex : Regex) : regex.length ≤ (source regex).length := by
  induction regex with
  | nil => simp
  | cons item regex ih =>
      have hpos : 0 < item.chars.source.length :=
        List.length_pos_of_ne_nil (source_ne_nil_and_head?_ne_star item.chars).1
      rw [source_cons, Item.source]
      simp only [List.length_cons, List.length_append]
      omega

theorem readFrom?_succ_of_ne_nil {fuel : Nat} {s : List Char} (hs : s ≠ []) :
    readFrom? (fuel + 1) s =
      match readClass? s with
      | none => none
      | some (chars, '*' :: r) => (readFrom? fuel r).map (⟨chars, true⟩ :: ·)
      | some (chars, r) => (readFrom? fuel r).map (⟨chars, false⟩ :: ·) := by
  cases s with
  | nil => exact absurd rfl hs
  | cons c s => rfl

theorem readFrom?_item {fuel : Nat} {item : Item} {rest : List Char}
    (hitem : item.chars.InGlob) (hrest : rest.head? ≠ some '*') :
    readFrom? (fuel + 1) (item.source ++ rest) = (readFrom? fuel rest).map (item :: ·) := by
  obtain ⟨chars, starred⟩ := item
  obtain ⟨hnil, -⟩ := source_ne_nil_and_head?_ne_star chars
  have hne : Item.source ⟨chars, starred⟩ ++ rest ≠ [] := by
    simp [Item.source, hnil]
  rw [readFrom?_succ_of_ne_nil hne, Item.source, List.append_assoc,
    readClass?_source_append hitem]
  cases starred with
  | true => rfl
  | false =>
      cases rest with
      | nil => rfl
      | cons x rest =>
          have hx : x ≠ '*' := by simpa using hrest
          simp [hx]

/-- An expression whose classes occur in globs is read back from its notation. -/
theorem readFrom?_source {regex : Regex} (hregex : ∀ item ∈ regex, item.chars.InGlob)
    {fuel : Nat} (hfuel : regex.length ≤ fuel) :
    readFrom? fuel (source regex) = some regex := by
  induction regex generalizing fuel with
  | nil => cases fuel <;> rfl
  | cons item regex ih =>
      cases fuel with
      | zero => simp at hfuel
      | succ fuel =>
          have htail := ih (fun i hi => hregex i (List.mem_cons_of_mem item hi))
            (Nat.le_of_succ_le_succ hfuel)
          rw [source_cons, readFrom?_item (hregex item (by simp)) (head?_source_ne_star regex),
            htail]
          rfl

theorem read?_source {regex : Regex} (hregex : ∀ item ∈ regex, item.chars.InGlob) :
    read? (source regex) = some regex :=
  readFrom?_source hregex (length_le_length_source regex)

theorem inGlob_of_mem_ofGlob {glob : List Char} {item : Item} (hmem : item ∈ ofGlob glob) :
    item.chars.InGlob := by
  obtain ⟨t, -, rfl⟩ := List.mem_map.mp hmem
  cases t with
  | deep => exact Or.inl rfl
  | segment => exact Or.inr rfl
  | literal c => trivial

theorem inGlob_of_mem_ofText {text : List Char} {item : Item} (hmem : item ∈ ofText text) :
    item.chars.InGlob := by
  obtain ⟨c, -, rfl⟩ := List.mem_map.mp hmem
  trivial

theorem source_append (a b : Regex) : source (a ++ b) = source a ++ source b := by
  unfold source
  rw [List.flatMap_append]

end Regex

/-! ## Compiled patterns -/

/-- The notation that a pattern is compiled from: its glob, behind the escaped anchor where the
walk starts in the current directory. -/
def Pattern.written (pattern : Pattern) : List Char :=
  (if pattern.root = "." then ['.', '/'].flatMap escapeLiteral else []) ++
    writtenGlob pattern.glob.toList

/-- The texts that a compiled pattern is to match. -/
def Pattern.Describes (pattern : Pattern) (path : List Char) : Prop :=
  if pattern.root = "." then
    ∃ below, path = '.' :: '/' :: below ∧ Token.Matches (tokens pattern.glob.toList) below
  else Token.Matches (tokens pattern.glob.toList) path

theorem Pattern.compile_glob (pattern : String) :
    (Pattern.compile pattern).glob = normalGlob (globAndExcludes pattern).1 := by
  unfold Pattern.compile
  obtain ⟨main, excludes⟩ := globAndExcludes pattern
  rfl

theorem Pattern.compile_root (pattern : String) :
    (Pattern.compile pattern).root = walkRoot (Pattern.compile pattern).glob := by
  unfold Pattern.compile
  obtain ⟨main, excludes⟩ := globAndExcludes pattern
  rfl

theorem Pattern.compile_regex (pattern : String) :
    (Pattern.compile pattern).regex =
      if (Pattern.compile pattern).root = "." then
        Regex.ofText ['.', '/'] ++ Regex.ofGlob (Pattern.compile pattern).glob.toList
      else Regex.ofGlob (Pattern.compile pattern).glob.toList := by
  unfold Pattern.compile
  obtain ⟨main, excludes⟩ := globAndExcludes pattern
  rfl

theorem Pattern.compile_recursive (pattern : String) :
    (Pattern.compile pattern).recursive = isRecursive (Pattern.compile pattern).glob := by
  unfold Pattern.compile
  obtain ⟨main, excludes⟩ := globAndExcludes pattern
  rfl

theorem Pattern.compile_levels (pattern : String) :
    (Pattern.compile pattern).levels =
      if (Pattern.compile pattern).recursive then none
      else some (walkLevels (Pattern.compile pattern).glob (Pattern.compile pattern).root) := by
  unfold Pattern.compile
  obtain ⟨main, excludes⟩ := globAndExcludes pattern
  rfl

theorem Pattern.read?_written_compile (pattern : String) :
    Regex.read? (Pattern.compile pattern).written = some (Pattern.compile pattern).regex := by
  have hwritten : (Pattern.compile pattern).written = (Pattern.compile pattern).regex.source := by
    rw [Pattern.written, Pattern.compile_regex, writtenGlob_eq_source]
    by_cases hroot : (Pattern.compile pattern).root = "."
    · rw [if_pos hroot, if_pos hroot, Regex.source_append]
      rfl
    · rw [if_neg hroot, if_neg hroot, List.nil_append]
  rw [hwritten]
  apply Regex.read?_source
  intro item hitem
  rw [Pattern.compile_regex] at hitem
  by_cases hroot : (Pattern.compile pattern).root = "."
  · rw [if_pos hroot] at hitem
    rcases List.mem_append.mp hitem with htext | hglob
    · exact Regex.inGlob_of_mem_ofText htext
    · exact Regex.inGlob_of_mem_ofGlob hglob
  · rw [if_neg hroot] at hitem
    exact Regex.inGlob_of_mem_ofGlob hitem

/-- A compiled pattern matches what it describes. -/
theorem Pattern.fullMatch_compile_iff (pattern : String) (path : List Char) :
    (Pattern.compile pattern).regex.fullMatch path = true ↔
      (Pattern.compile pattern).Describes path := by
  rw [Pattern.compile_regex, Pattern.Describes]
  by_cases hroot : (Pattern.compile pattern).root = "."
  · rw [if_pos hroot, if_pos hroot, Regex.fullMatch_ofText_append_iff]
    simp only [Regex.fullMatch_ofGlob_iff, List.cons_append, List.nil_append]
  · rw [if_neg hroot, if_neg hroot]
    exact Regex.fullMatch_ofGlob_iff _ path

/-- The notation that the passes write for a glob is one expression, which matches exactly the
language of the glob; and the notation of a compiled pattern is its expression, which matches
exactly the normal form of its glob, behind `./` where the walk starts in the current directory. -/
theorem writtenGlob_denotes_language :
    (∀ glob : List Char, ∃ regex : Regex,
      Regex.read? (writtenGlob glob) = some regex ∧
        ∀ s, regex.fullMatch s = true ↔ Token.Matches (tokens glob) s) ∧
    (∀ (pattern : String) (path : List Char),
      let compiled := Pattern.compile pattern
      compiled.glob = normalGlob (globAndExcludes pattern).1 ∧
        Regex.read? compiled.written = some compiled.regex ∧
        (compiled.regex.fullMatch path = true ↔ compiled.Describes path)) := by
  constructor
  · intro glob
    refine ⟨Regex.ofGlob glob, ?_, Regex.fullMatch_ofGlob_iff glob⟩
    rw [writtenGlob_eq_source]
    exact Regex.read?_source fun item hitem => Regex.inGlob_of_mem_ofGlob hitem
  · intro pattern path
    exact ⟨Pattern.compile_glob pattern, Pattern.read?_written_compile pattern,
      Pattern.fullMatch_compile_iff pattern path⟩

end BuildRunner.Glob
