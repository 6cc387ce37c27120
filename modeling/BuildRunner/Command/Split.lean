/-!
# Command lines

A command line is split into words at blanks.  Quotes and backslashes keep blanks in a word: single
quotes keep everything, double quotes keep everything but their own end and the backslash, and a
backslash keeps the next character.  `quoteWord` writes a word so that splitting gives it back.
-/

namespace BuildRunner.Command

/-- Where in a command line the reading stands. -/
inductive Reading
  | plain
  | single
  | double
  /-- Behind a backslash outside of quotes. -/
  | escape
  /-- Behind a backslash in double quotes. -/
  | doubleEscape
deriving DecidableEq, Repr

/-- A character that separates words. -/
def isSeparator (c : Char) : Bool := c == ' ' || c == '\t' || c == '\r' || c == '\n'

/-- A word, as the list of one, or no word. -/
def finished : Option (List Char) → List (List Char)
  | none => []
  | some word => [word]

/-- The word so far with one more character. -/
def extend (word : Option (List Char)) (c : Char) : Option (List Char) := some (word.getD [] ++ [c])

/-- The words of the rest of a command line, given where the reading stands and the word so far;
none where the line ends within quotes or behind a backslash. -/
def splitFrom : Reading → Option (List Char) → List Char → Option (List (List Char))
  | .plain, word, [] => some (finished word)
  | _, _, [] => none
  | .plain, word, c :: r =>
    if isSeparator c then (splitFrom .plain none r).map (finished word ++ ·)
    else if c = '\'' then splitFrom .single (some (word.getD [])) r
    else if c = '"' then splitFrom .double (some (word.getD [])) r
    else if c = '\\' then splitFrom .escape word r
    else splitFrom .plain (extend word c) r
  | .single, word, c :: r =>
    if c = '\'' then splitFrom .plain word r else splitFrom .single (extend word c) r
  | .double, word, c :: r =>
    if c = '"' then splitFrom .plain word r
    else if c = '\\' then splitFrom .doubleEscape word r
    else splitFrom .double (extend word c) r
  | .escape, word, c :: r => splitFrom .plain (extend word c) r
  | .doubleEscape, word, c :: r =>
    if c = '"' ∨ c = '\\' then splitFrom .double (extend word c) r
    else splitFrom .double (extend (extend word '\\') c) r

/-- The words of a command line; none where it has none or is not complete. -/
def parse (line : String) : Option (List String) :=
  match splitFrom .plain none line.toList with
  | none => none
  | some [] => none
  | some words => some (words.map String.ofList)

/-- A character that needs no quotes. -/
def isSafe (c : Char) : Bool := c.isAlphanum || "_@%+=:,./-".toList.contains c

/-- A word as it is written in a command line. -/
def quoteChars (word : List Char) : List Char :=
  if word.isEmpty then ['\'', '\'']
  else if word.all isSafe then word
  else
    '\'' :: word.flatMap (fun c => if c = '\'' then ['\'', '"', '\'', '"', '\''] else [c]) ++ ['\'']

def quoteWord (word : String) : String := String.ofList (quoteChars word.toList)

/-- A command line that has the given words. -/
def join (words : List String) : String := String.intercalate " " (words.map quoteWord)

end BuildRunner.Command
