import BuildRunner.Console.Style

/-!
# Console markup

The console takes styles from tags in square brackets.  A tag starts with a lower-case letter, `#`,
`/` or `@` and ends at the next closing bracket, with no opening bracket between.  A backslash
before a tag makes it plain text.  A tag opens a style, or closes one that is open.  `escape`
protects a value that is put into a marked-up text, and `plain` is what a marked-up text shows once
its tags are gone.
-/

namespace BuildRunner.Console

/-- A character that a tag may start with. -/
def startsTag (c : Char) : Bool := c.isLower || c == '#' || c == '/' || c == '@'

/-- Whether a closing bracket comes before any opening one. -/
def closes : List Char → Bool
  | [] => false
  | c :: r => c == ']' || (c != '[' && closes r)

/-- Whether the text behind an opening bracket makes it a tag. -/
def isTag : List Char → Bool
  | [] => false
  | c :: r => startsTag c && closes r

/-- A value with its tags escaped.  `pending` backslashes come before the rest of the text. -/
def escapeFrom (pending : Nat) : List Char → List Char
  | [] => List.replicate pending '\\'
  | '\\' :: r => escapeFrom (pending + 1) r
  | '[' :: r =>
    (if isTag r then List.replicate (2 * pending + 1) '\\' else List.replicate pending '\\') ++
      '[' :: escapeFrom 0 r
  | c :: r => List.replicate pending '\\' ++ c :: escapeFrom 0 r

/-- A value as it is put into a marked-up text.  A single backslash at its end is doubled, lest it
escape a tag that follows. -/
def escape (s : String) : String :=
  let escaped := escapeFrom 0 s.toList
  match escaped.reverse with
  | ['\\'] => String.ofList (escaped ++ ['\\'])
  | '\\' :: c :: _ => if c = '\\' then String.ofList escaped else String.ofList (escaped ++ ['\\'])
  | _ => String.ofList escaped

/-- A tag; a name that starts with a slash closes a style. -/
structure Tag where
  name : List Char
  /-- What follows the first `=` of the tag. -/
  parameters : Option (List Char)
deriving DecidableEq, Repr

/-- The tag of the text between the brackets. -/
def Tag.ofBody (body : List Char) : Tag :=
  match body.dropWhile (· != '=') with
  | [] => ⟨body, none⟩
  | _ :: parameters => ⟨body.takeWhile (· != '='), some parameters⟩

/-- A tag with its brackets. -/
def Tag.text (tag : Tag) : String :=
  String.ofList ('[' :: tag.name ++ tag.parameters.elim [] ('=' :: ·) ++ [']'])

/-- A part of a marked-up text. -/
inductive Piece
  | text (s : List Char)
  /-- A tag, and the index of the character that it starts at. -/
  | tag (position : Nat) (tag : Tag)
deriving DecidableEq, Repr

/-- The pieces of a marked-up text from the index `position` on, behind `pending` backslashes.
Within a tag, `inside` has its start and what was read of it, the last character first. -/
def piecesFrom (position pending : Nat) (inside : Option (Nat × List Char)) :
    List Char → List Piece
  | [] => [.text (List.replicate pending '\\')]
  | c :: r =>
    match inside with
    | some (start, body) =>
      if c = ']' then
        .tag start (.ofBody body.reverse) :: piecesFrom (position + 1) 0 none r
      else piecesFrom (position + 1) 0 (some (start, c :: body)) r
    | none =>
      if c = '\\' then piecesFrom (position + 1) (pending + 1) none r
      else if c = '[' then
        if isTag r then
          if pending % 2 = 0 then
            .text (List.replicate (pending / 2) '\\') ::
              piecesFrom (position + 1) 0 (some (position, [])) r
          else
            .text (List.replicate (pending / 2) '\\' ++ ['[']) ::
              piecesFrom (position + 1) 0 none r
        else
          .text (List.replicate (pending - 1) '\\' ++ ['[']) ::
            piecesFrom (position + 1) 0 none r
      else
        .text (List.replicate pending '\\' ++ [c]) :: piecesFrom (position + 1) 0 none r

/-- A closing tag that closes nothing. -/
inductive MarkupFault
  /-- No tag of the style is open. -/
  | unmatched (tag : Tag) (position : Nat)
  /-- No tag is open at all. -/
  | nothingOpen (position : Nat)
deriving DecidableEq, Repr

def MarkupFault.message : MarkupFault → String
  | .unmatched tag position =>
    "closing tag '" ++ tag.text ++ "' at position " ++ toString position ++
      " doesn't match any open tag"
  | .nothingOpen position =>
    "closing tag '[/]' at position " ++ toString position ++ " has nothing to close"

/-- What pieces show.  `styles` are open, the last one first; they need not be closed. -/
def showPieces (styles : List (List Char)) : List Piece → Except MarkupFault (List Char)
  | [] => .ok []
  | .text s :: rest => do return s ++ (← showPieces styles rest)
  | .tag position tag :: rest =>
    match tag.name with
    | '/' :: name =>
      if Text.trim name = [] then
        match styles with
        | [] => .error (.nothingOpen position)
        | _ :: styles => showPieces styles rest
      else
        let style := canonicalStyle name
        if styles.contains style then showPieces (styles.erase style) rest
        else .error (.unmatched tag position)
    | name => showPieces (canonicalStyle name :: styles) rest

/-- What a marked-up text shows. -/
def plain (markup : String) : Except MarkupFault String :=
  String.ofList <$> showPieces [] (piecesFrom 0 0 none markup.toList)

end BuildRunner.Console
