import BuildRunner.Shell.Reader

/-!
# Words of a script

A word is read character by character.  Quotes and expansions may be nested in one another, and
every level has its own rules for which characters have a meaning.  The text that a redirection
takes from the script is read by the same rules.
-/

namespace BuildRunner.Shell

/-- The rules of a level of a word. -/
inductive Quoting
  | none
  | single
  | double
  | arithmetic
deriving DecidableEq, Repr

structure Level where
  quoting : Quoting := .none
  /-- Whether the level belongs to an expansion of its own rules. -/
  ofExpansion : Bool := false
  /-- Whether the level lies between double quotes. -/
  inDouble : Bool := false
  /-- Whether double quotes were opened within the expansion. -/
  opened : Bool := false
  /-- The expansions in braces that are open. -/
  braces : Nat := 0
  /-- Those of them that lie between double quotes. -/
  quotedBraces : Nat := 0
  parentheses : Nat := 0
deriving Inhabited

/-- What an unfinished piece will be. -/
inductive Opening
  | parameter (name : String) (operation : Operation) (orEmpty : Bool)
  | arithmetic

/-- A word that is being read. -/
structure Draft where
  level : Level
  outer : List Level := []
  /-- The pieces so far, the last one first. -/
  pieces : List Piece := []
  /-- The unfinished pieces around them, with the pieces before those. -/
  unfinished : List (Opening × List Piece) := []
  quoted : Bool := false
  /-- The mark of a text in the script, and whether tabs in front of lines are left out. -/
  document : Option (List Char × Bool) := none

namespace Draft

def add (piece : Piece) (draft : Draft) : Draft := { draft with pieces := piece :: draft.pieces }

def addChar (c : Char) (isProtected : Bool) (draft : Draft) : Draft :=
  draft.add (.char c isProtected)

/-- A quotation mark; in a document it is none. -/
def addMark (draft : Draft) : Draft := if draft.document.isSome then draft else draft.add .mark

def setLevel (f : Level → Level) (draft : Draft) : Draft := { draft with level := f draft.level }

def enter (level : Level) (draft : Draft) : Draft :=
  { draft with level, outer := draft.level :: draft.outer }

def leave (draft : Draft) : Draft :=
  match draft.outer with
  | [] => draft
  | level :: outer => { draft with level, outer }

def begin (opening : Opening) (draft : Draft) : Draft :=
  { draft with pieces := [], unfinished := (opening, draft.pieces) :: draft.unfinished }

/-- Finishes the piece that was begun last. -/
def finish (draft : Draft) : Draft :=
  match draft.unfinished with
  | [] => draft
  | (opening, before) :: unfinished =>
    let inner := draft.pieces.reverse
    let piece := match opening with
      | .parameter name operation orEmpty => .parameter name operation orEmpty inner
      | .arithmetic => .arithmetic inner
    { draft with pieces := piece :: before, unfinished }

/-- Opens or closes double quotes. -/
def toggleDouble (draft : Draft) : Draft :=
  (draft.setLevel fun level =>
    if level.braces = 0 then level else { level with opened := !level.opened }).addMark

end Draft

/-- Parameters that are named by one character other than a digit. -/
def isSpecialName (c : Char) : Bool := "@*#?$!-".toList.contains c

/-- Characters that end a word outside of quotes. -/
def endsWord (c : Char) : Bool := "<>();&| \t".toList.contains c

namespace Reading

/-- Reads characters as long as they fulfil a condition; the first other one comes with them. -/
def takeWhile (p : Char → Bool) :
    (fuel : Nat) → List Char → Option Char → Reading (List Char × Option Char)
  | 0, name, c => return (name.reverse, c)
  | fuel + 1, name, c => do
    match c with
    | some c =>
      if p c then takeWhile p fuel (c :: name) (← nextJoined)
      else return (name.reverse, some c)
    | none => return (name.reverse, none)

/-- The name of a parameter. -/
structure ParameterName where
  name : List Char
  isLength : Bool := false
  isBad : Bool := false
  /-- The character behind the name. -/
  behind : Option Char

/-- Reads a name that starts with a letter or a digit. -/
def plainName? (braced isLength : Bool) (c : Option Char) : Reading (Option ParameterName) := do
  match c with
  | none => return none
  | some first =>
    if isNameStart first then
      let (name, behind) ← takeWhile isNameChar endlessSteps [] (some first)
      return some { name, isLength, behind }
    else if first.isDigit then
      if braced then
        let (name, behind) ← takeWhile Char.isDigit endlessSteps [] (some first)
        return some { name, isLength, behind }
      else return some { name := [first], isLength, behind := ← nextJoined }
    else return none

/-- The name of one character, if the character is such a name. -/
def specialName (isLength : Bool) (c behind : Option Char) : ParameterName :=
  match c with
  | some c =>
    if c.isDigit || isSpecialName c then { name := [c], isLength, behind }
    else { name := [], isBad := true, behind }
  | none => { name := [], isBad := true, behind }

/-- Reads the name of a parameter from its first character on.  Within braces a number sign before a
name asks for a length. -/
def parameterName (braced : Bool) (first : Option Char) : Reading ParameterName := do
  match ← plainName? braced false first with
  | some name => return name
  | none =>
    if first = some '\x7d' then return { name := [], isBad := true, behind := first }
    let second ← nextJoined
    if !(braced && first = some '#') then return specialName false first second
    match second with
    | some c =>
      if isNameChar c then
        return (← plainName? true true second).getD { name := [], isBad := true, behind := second }
    | none => pure ()
    let third ← nextJoined
    if second = some '\x7d' || third ≠ some '\x7d' then
      handBack third
      return specialName false (some '#') second
    return specialName true second third

/-- The operation behind the name of a parameter in braces, and whether an empty value counts as
none. -/
def operation (name : ParameterName) : Reading (Operation × Bool) := do
  if name.isBad then
    handBack name.behind
    return (.malformed, false)
  if name.isLength then
    handBack name.behind
    return (.length, false)
  let ofChar (c : Option Char) : Operation :=
    match c with
    | some '\x7d' => .value
    | some '-' => .default
    | some '+' => .alternate
    | some '?' => .demand
    | some '=' => .assign
    | _ => .malformed
  match name.behind with
  | some ':' => return (ofChar (← nextJoined), true)
  | some '%' => return (.trim true (← takes '%'), false)
  | some '#' => return (.trim false (← takes '#'), false)
  | c => return (ofChar c, false)

/-- Reads the parameter behind a dollar sign; `first` is its first character, or that of the braces
around it. -/
def parameter (first : Char) (draft : Draft) : Reading Draft := do
  let braced := first == '\x7b'
  let first ← if braced then nextJoined else pure (some first)
  let name ← parameterName braced first
  let text := String.ofList name.name
  if !braced then
    handBack name.behind
    return draft.add (.parameter text .value false [])
  let (operation, orEmpty) ← operation name
  if operation = .value && !orEmpty then return draft.add (.parameter text .value false [])
  let quoting := match operation with
    | .trim .. => Quoting.none
    | _ => if draft.level.quoting = .arithmetic then .double else draft.level.quoting
  let draft :=
    if quoting ≠ draft.level.quoting || draft.level.opened then
      draft.enter { quoting, ofExpansion := true, inDouble := quoting ≠ .none }
    else draft
  let draft := draft.setLevel fun level =>
    { level with
      braces := level.braces + 1
      quotedBraces := if level.inDouble then level.quotedBraces + 1 else level.quotedBraces }
  return draft.begin (.parameter text operation orEmpty)

/-- The text up to the closing backquote. -/
def toBackquote (inDouble : Bool) : (fuel : Nat) → List Char → Reading (List Char)
  | 0, text => return text.reverse
  | fuel + 1, text => do
    match ← nextJoined with
    | none => fail "EOF in backquote substitution"
    | some '\x60' => return text.reverse
    | some '\\' =>
      match ← next with
      | none => toBackquote inDouble fuel ('\\' :: text)
      | some c =>
        if c = '\\' || c = '\x60' || c = '$' || (inDouble && c = '"') then
          toBackquote inDouble fuel (c :: text)
        else toBackquote inDouble fuel (c :: '\\' :: text)
    | some '\n' =>
      nextLine
      toBackquote inDouble fuel ('\n' :: text)
    | some c => toBackquote inDouble fuel (c :: text)

/-- How the commands of a substitution are read: up to a closing parenthesis, or to the end of the
text. -/
structure NestedReading where
  toParenthesis : Reading (Option Command)
  toEnd : Reading (Option Command)

/-- Reads what stands behind a dollar sign, which may stand for itself. -/
def dollar (nested : NestedReading) (isMark : Bool) (draft : Draft) : Reading Draft := do
  let c ← nextJoined
  let starts := c.any fun c =>
    c = '(' || c = '\x7b' || isNameStart c || c.isDigit || isSpecialName c
  match c with
  | some c =>
    if isMark || !starts then
      handBack (some c)
      return draft.addChar '$' false
    if c ≠ '(' then return ← parameter c draft
    if ← takes '(' then
      return (draft.enter { quoting := .arithmetic, inDouble := true }).begin .arithmetic
    return draft.add (.output (← nested.toParenthesis))
  | none => return draft.addChar '$' false

/-- Reads the characters behind a backslash. -/
def backslash (draft : Draft) : Reading Draft := do
  match ← next with
  | none => return draft.addChar '\\' true
  | some c =>
    let level := draft.level
    let keeps := level.inDouble && c ≠ '\\' && c ≠ '\x60' && c ≠ '$' &&
      (c ≠ '"' || (draft.document.isSome && level.braces = 0)) && (c ≠ '\x7d' || level.braces = 0)
    let draft := if keeps then draft.addChar '\\' true else draft
    return { draft.addChar c true with quoted := true }

/-- A quote that ends quoting. -/
def closingQuote (c : Char) (draft : Draft) : Draft :=
  if draft.document.isSome && draft.level.braces = 0 then draft.addChar c false
  else
    let draft := draft.setLevel fun level =>
      if level.quotedBraces = 0 then { level with quoting := .none, inDouble := false } else level
    let draft := { draft with quoted := true }
    if c = '"' then draft.toggleDouble else draft.addMark

/-- A closing brace. -/
def closingBrace (draft : Draft) : Draft :=
  let level := draft.level
  if level.opened || level.braces = 0 then draft.addChar '\x7d' false
  else
    let inner := draft.setLevel fun level => { level with braces := level.braces - 1 }
    let draft :=
      if level.braces = 1 && level.ofExpansion then inner.leave
      else inner.setLevel fun level => { level with quotedBraces := level.quotedBraces - 1 }
    draft.finish

/-- A closing parenthesis within arithmetic. -/
def closingParenthesis (draft : Draft) : Reading Draft := do
  if 0 < draft.level.parentheses then
    return (draft.addChar ')' false).setLevel fun level =>
      { level with parentheses := level.parentheses - 1 }
  if ← takes ')' then return draft.leave.finish
  return draft.addChar ')' false

/-- What remains of a line behind a beginning that it has, if the line consists of it. -/
def isLine (mark : List Char) (rest : List Char) : Option (List Char) :=
  match mark, rest with
  | [], [] => some []
  | [], '\n' :: r => some r
  | m :: mark, c :: r => if m = c then isLine mark r else none
  | _, _ => none

/-- The first character of a line of a document, none where the line is its end. -/
def lineStart (document : Option (List Char × Bool)) : (fuel : Nat) → Option Char →
    Reading (Option Char)
  | 0, c => return c
  | fuel + 1, c => do
    match document, c with
    | some (_, true), some '\t' => lineStart document fuel (← next)
    | some (mark, _), c =>
      let reader ← get
      let rest := c.toList ++ (reader.layers.head?.elim [] Layer.rest)
      match isLine mark rest with
      | some rest =>
        let layers := match reader.layers with
          | layer :: outer => { layer with rest } :: outer
          | [] => []
        set { reader with layers, line := reader.line + 1 }
        return none
      | none => return c
    | none, c => return c

/-- Reads a word from a character on.  The first character behind it comes with the draft. -/
def draftFrom (nested : NestedReading) (isMark : Bool) :
    (fuel : Nat) → Option Char → Draft → Reading (Draft × Option Char)
  | 0, c, draft => return (draft, c)
  | fuel + 1, c, draft => do
    let goOn (draft : Draft) : Reading (Draft × Option Char) := do
      let c ← if draft.level.quoting = .single then next else nextJoined
      draftFrom nested isMark fuel c draft
    let level := draft.level
    match c with
    | none => return (draft, none)
    | some '\n' =>
      if level.quoting = .none && level.braces = 0 then return (draft, c)
      nextLine
      let c ← if level.quoting = .single then next else nextJoined
      let c ← lineStart draft.document endlessSteps c
      draftFrom nested isMark fuel c (draft.addChar '\n' false)
    | some c =>
      match level.quoting with
      | .single =>
        if c = '\'' then goOn (closingQuote c draft)
        else goOn (draft.addChar c draft.document.isNone)
      | .double =>
        match c with
        | '\\' => goOn (← backslash draft)
        | '"' => goOn (closingQuote c draft)
        | '$' => goOn (← dollar nested isMark draft)
        | '\x60' => goOn (← backquote draft)
        | '\x7d' => goOn (closingBrace draft)
        | c => goOn (draft.addChar c true)
      | .arithmetic =>
        match c with
        | '\\' => goOn (← backslash draft)
        | '$' => goOn (← dollar nested isMark draft)
        | '\x60' => goOn (← backquote draft)
        | '\x7d' => goOn (closingBrace draft)
        | '(' =>
          goOn ((draft.addChar c false).setLevel fun level =>
            { level with parentheses := level.parentheses + 1 })
        | ')' => goOn (← closingParenthesis draft)
        | c => goOn (draft.addChar c false)
      | .none =>
        match c with
        | '\\' => goOn (← backslash draft)
        | '\'' => goOn (draft.setLevel fun level => { level with quoting := .single }).addMark
        | '"' =>
          goOn (draft.setLevel fun level =>
            { level with quoting := .double, inDouble := true }).toggleDouble
        | '$' => goOn (← dollar nested isMark draft)
        | '\x60' => goOn (← backquote draft)
        | '\x7d' => goOn (closingBrace draft)
        | c =>
          if endsWord c && level.braces = 0 then return (draft, some c)
          goOn (draft.addChar c false)
where
  backquote (draft : Draft) : Reading Draft := do
    if isMark then return draft.addChar '\x60' false
    let text ← toBackquote draft.level.inDouble endlessSteps []
    return draft.add (.output (← within text nested.toEnd))

/-- A draft whose quotes and expansions have all come to their end, as a word. -/
def finished (draft : Draft) : Reading Word := do
  if draft.level.quoting = .arithmetic then fail "Missing '))'"
  if draft.level.quoting ≠ .none && draft.document.isNone then fail "Unterminated quoted string"
  if draft.level.braces ≠ 0 then fail "Missing '\x7d'"
  return draft.pieces.reverse

/-- Reads the redirection operator that starts with the given character. -/
def redirection (c : Char) (stream : Option Nat) : Reading RedirectionStart := do
  if c = '>' then
    let stream := stream.getD 1
    match ← nextJoined with
    | some '>' => return .file stream .append
    | some '|' => return .file stream (.write true)
    | some '&' => return .duplicate stream
    | c =>
      handBack c
      return .file stream (.write false)
  else
    let stream := stream.getD 0
    match ← nextJoined with
    | some '<' => return .document stream (← takes '-')
    | some '&' => return .duplicate stream
    | some '>' => return .file stream .readWrite
    | c =>
      handBack c
      return .file stream .read

/-- Reads a word, or a redirection operator that may have a number in front, from a character
on. -/
def wordOrRedirection (nested : NestedReading) (isMark : Bool) (c : Option Char) :
    Reading Token := do
  let (draft, behind) ← draftFrom nested isMark endlessSteps c { level := {} }
  let word ← finished draft
  let stream? : Option (Option Nat) := match word with
    | [] => some none
    | [.char c false] => if c.isDigit then some (some (c.toNat - '0'.toNat)) else none
    | _ => none
  match behind, stream? with
  | some '<', some stream => return .redirection (← redirection '<' stream)
  | some '>', some stream => return .redirection (← redirection '>' stream)
  | c, _ =>
    handBack c
    return .word word draft.quoted

/-- Reads the texts that were asked for. -/
def documents (nested : NestedReading) : Reading Unit := do
  let requests := (← get).requests
  modify fun reader => { reader with requests := [] }
  requests.forM fun request => do
    let level : Level :=
      if request.expanded then { quoting := .double, inDouble := true } else { quoting := .single }
    let document := some (request.mark, request.withoutTabs)
    let c ← lineStart document endlessSteps (← if request.expanded then nextJoined else next)
    let (draft, _) ← draftFrom nested false endlessSteps c { level, document }
    let word ← finished draft
    modify fun reader =>
      { reader with documents := reader.documents ++ [(request.number, word)] }

end Reading

end BuildRunner.Shell
