/-!
# Shell commands

The commands of a shell script: simple commands with assignments and redirections, put together by
sequence, conjunction, pipelines, branches and loops.  A word is a list of pieces, some of which are
replaced by values when the word is used.
-/

namespace BuildRunner.Shell

/-- What an expansion makes of the value of its parameter and of the word behind it. -/
inductive Operation
  | value
  | length
  /-- The word where the parameter is unset. -/
  | default
  /-- The word where the parameter is set. -/
  | alternate
  /-- The word where the parameter is unset, which it becomes the value of. -/
  | assign
  /-- A complaint where the parameter is unset. -/
  | demand
  /-- The value without the beginning or the end that the word matches. -/
  | trim (atEnd longest : Bool)
  /-- An expansion that is none. -/
  | malformed
deriving DecidableEq, Repr

/-- How a redirection opens a file. -/
inductive OpenMode
  | read
  /-- Writing from the start; with `force` also where files are protected. -/
  | write (force : Bool)
  | append
  | readWrite
deriving DecidableEq, Repr

mutual

inductive Piece
  /-- A character; a protected one was quoted and has no meaning but itself. -/
  | char (c : Char) (isProtected : Bool)
  /-- A quotation mark, behind which quoting begins or ends. -/
  | mark
  /-- The value of a parameter.  With `orEmpty` an empty value counts as none. -/
  | parameter (name : String) (operation : Operation) (orEmpty : Bool) (word : List Piece)
  /-- The output of a command. -/
  | output (body : Option Command)
  | arithmetic (expression : List Piece)

inductive Redirection
  | file (stream : Nat) (mode : OpenMode) (target : List Piece)
  /-- Use the stream of another number, or close the stream. -/
  | duplicate (stream : Nat) (source : Option Nat)
  /-- The same where the number is known only once the word is expanded. -/
  | duplicateOf (stream : Nat) (source : List Piece)
  /-- Read a text that stands in the script, which is kept apart under a number. -/
  | document (stream : Nat) (number : Nat)

inductive Command
  | simple (line : Nat) (assignments words : List (List Piece)) (redirections : List Redirection)
  | pipeline (commands : List Command) (background : Bool)
  | redirected (line : Nat) (body : Command) (redirections : List Redirection)
  /-- A command with a process of its own, which may be left running. -/
  | apart (line : Nat) (background : Bool) (body : Command) (redirections : List Redirection)
  | sequence (first second : Command)
  | conjunction (first second : Command)
  | disjunction (first second : Command)
  | negation (body : Command)
  | branch (condition yes : Command) (no : Option Command)
  /-- Repeats the body while the condition succeeds, or until it does. -/
  | loop (untilSuccess : Bool) (condition body : Command)
  | each (line : Nat) (name : String) (words : List (List Piece)) (body : Command)
  | select (line : Nat) (word : List Piece)
      (choices : List (List (List Piece) × Option Command))
  | define (line : Nat) (name : String) (body : Command)

end

abbrev Word := List Piece

instance : Inhabited Piece := ⟨.mark⟩

instance : Inhabited Command := ⟨.simple 1 [] [] []⟩

/-- What keeps a script from being read on, and the line where that shows. -/
structure Fault where
  line : Nat
  message : String
deriving DecidableEq, Repr, Inhabited

def isNameStart (c : Char) : Bool := c.isAlpha || c == '_'

def isNameChar (c : Char) : Bool := c.isAlphanum || c == '_'

/-- Whether a text may name a variable. -/
def isName (s : List Char) : Bool :=
  match s with
  | [] => false
  | c :: r => isNameStart c && r.all isNameChar

namespace Word

/-- The text of a word that has no quotes and no expansions. -/
def bare? : Word → Option (List Char)
  | [] => some []
  | .char c false :: rest => (c :: ·) <$> bare? rest
  | _ => none

/-- The unprotected characters at the head of a word. -/
def head : Word → List Char
  | .char c false :: rest => c :: head rest
  | _ => []

/-- Whether a word assigns to a variable. -/
def isAssignment (word : Word) : Bool :=
  let name := (head word).takeWhile (· != '=')
  isName name && name.length < (head word).length

/-- The characters of a word without its quotes; expansions have none. -/
def characters (word : Word) : List Char :=
  word.filterMap fun
    | .char c _ => some c
    | _ => none

end Word

end BuildRunner.Shell
