import BuildRunner.Text.Quoted
import BuildRunner.Glob.Token

/-!
# Regular expressions of globs

A glob compiles to a sequence of items, each a class of characters taken once or any number of
times.  `source` writes the sequence in the usual notation, `read?` reads that notation back, and
`fullMatch` decides whether a whole text is matched.
-/

namespace BuildRunner.Glob

inductive CharClass
  | exactly (c : Char)
  | allBut (c : Char)
deriving DecidableEq, Repr

def CharClass.accepts : CharClass → Char → Bool
  | .exactly c, x => x == c
  | .allBut c, x => x != c

structure Item where
  chars : CharClass
  /-- Whether the class is taken any number of times instead of once. -/
  starred : Bool
deriving DecidableEq, Repr

abbrev Regex := List Item

/-- The characters that have a meaning in the notation and are escaped by a backslash. -/
def isSpecial (c : Char) : Bool :=
  "\t\n\x0b\x0c\r #$&()*+-.?[\\]^\x7b|\x7d~".toList.contains c

/-- A character that stands for itself.  The first two control characters are written by their
code. -/
def escapeLiteral (c : Char) : List Char :=
  if c = '\x01' ∨ c = '\x02' then '\\' :: 'x' :: Text.hex 2 c.toNat
  else if isSpecial c then ['\\', c]
  else [c]

/-- A class of characters in the notation. -/
def CharClass.source : CharClass → List Char
  | .exactly c => escapeLiteral c
  | .allBut c => if c = '\n' then ['.'] else '[' :: '^' :: escapeLiteral c ++ [']']

def Item.source (item : Item) : List Char :=
  item.chars.source ++ if item.starred then ['*'] else []

namespace Regex

/-- The sequence in the usual notation. -/
def source (regex : Regex) : List Char := regex.flatMap Item.source

/-- What a token stands for. -/
def ofToken : Token → Item
  | .deep => ⟨.allBut '\n', true⟩
  | .segment => ⟨.allBut '/', true⟩
  | .literal c => ⟨.exactly c, false⟩

/-- The expression of a glob. -/
def ofGlob (glob : List Char) : Regex := (tokens glob).map ofToken

/-- The expression that matches one text. -/
def ofText (text : List Char) : Regex := text.map fun c => ⟨.exactly c, false⟩

/-- Whether some number of characters of the class can be taken so that `rest` holds. -/
def matchStar (chars : CharClass) (rest : List Char → Bool) : List Char → Bool
  | [] => rest []
  | c :: s => rest (c :: s) || (chars.accepts c && matchStar chars rest s)

/-- Whether the expression matches the whole text. -/
def fullMatch : Regex → List Char → Bool
  | [], s => s.isEmpty
  | item :: regex, s =>
    if item.starred then matchStar item.chars (fullMatch regex) s
    else
      match s with
      | [] => false
      | c :: s => item.chars.accepts c && fullMatch regex s

/-- The value of two hexadecimal digits. -/
def hexPair? (a b : Char) : Option Char :=
  let digit? (c : Char) : Option Nat :=
    if c.isDigit then some (c.toNat - '0'.toNat)
    else if 'a' ≤ c ∧ c ≤ 'f' then some (c.toNat - 'a'.toNat + 10)
    else none
  match digit? a, digit? b with
  | some m, some n => some (Char.ofNat (16 * m + n))
  | _, _ => none

/-- A class of characters at the head of the notation. -/
def readClass? : List Char → Option (CharClass × List Char)
  | [] => none
  | '.' :: r => some (.allBut '\n', r)
  | '[' :: '^' :: c :: ']' :: r => if isSpecial c then none else some (.allBut c, r)
  | '\\' :: 'x' :: a :: b :: r => (hexPair? a b).map fun c => (.exactly c, r)
  | '\\' :: c :: r => if isSpecial c then some (.exactly c, r) else none
  | c :: r => if isSpecial c then none else some (.exactly c, r)

/-- The expression that a text in the notation denotes.  The fuel bounds the number of items. -/
def readFrom? : (fuel : Nat) → List Char → Option Regex
  | _, [] => some []
  | 0, _ :: _ => none
  | fuel + 1, s =>
    match readClass? s with
    | none => none
    | some (chars, '*' :: r) => (readFrom? fuel r).map (⟨chars, true⟩ :: ·)
    | some (chars, r) => (readFrom? fuel r).map (⟨chars, false⟩ :: ·)

def read? (source : List Char) : Option Regex := readFrom? source.length source

end Regex

/-! ### Writing a glob

A glob is rewritten to the notation in passes over its text.  Its characters are escaped first, so
that the marks of the passes in between cannot be meant by it. -/

/-- Stands for two stars between two passes. -/
def deepMark : Char := '\x01'

/-- Stands for one star between two passes. -/
def segmentMark : Char := '\x02'

/-- A character of a glob, escaped unless it is a star. -/
def escapeGlobChar (c : Char) : List Char := if c = '*' then [c] else escapeLiteral c

/-- The text with each two stars in a row, from the left on, replaced by a mark. -/
def markPairs (mark : Char) : List Char → List Char
  | [] => []
  | '*' :: '*' :: r => mark :: markPairs mark r
  | c :: r => c :: markPairs mark r

/-- The text with each occurrence of a character replaced by another text. -/
def substitute (c : Char) (replacement text : List Char) : List Char :=
  text.flatMap fun x => if x = c then replacement else [x]

/-- A glob in the notation; two stars are claimed before one. -/
def writtenGlob (glob : List Char) : List Char :=
  let escaped := glob.flatMap escapeGlobChar
  let marked := substitute '*' [segmentMark] (markPairs deepMark escaped)
  substitute segmentMark (Item.source ⟨.allBut '/', true⟩)
    (substitute deepMark (Item.source ⟨.allBut '\n', true⟩) marked)

def regexText (glob : String) : String := String.ofList (writtenGlob glob.toList)

end BuildRunner.Glob
