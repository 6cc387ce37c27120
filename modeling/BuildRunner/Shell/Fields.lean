/-!
# Fields

An expanded word is a list of runs.  A run of values may be split into several fields at the
characters that separate fields; other text is never split.  Quotes leave a mark, so that a field
may be empty.
-/

namespace BuildRunner.Shell

/-- A part of an expanded word. -/
inductive Cell
  | char (c : Char) (isProtected : Bool)
  /-- The place of a quotation mark. -/
  | mark
deriving DecidableEq, Repr, Inhabited

/-- How a run is split. -/
inductive Splitting
  | never
  /-- At the characters that separate fields. -/
  | atSeparators
  /-- Only where one argument ends and the next one begins. -/
  | atArguments
deriving DecidableEq, Repr, Inhabited

structure Run where
  splitting : Splitting
  cells : List Cell
deriving DecidableEq, Repr, Inhabited

namespace Cell

/-- The character between two arguments in a run. -/
def argumentEnd : Char := '\x00'

def ofText (s : List Char) (isProtected : Bool) : List Cell := s.map (.char · isProtected)

/-- The text of some cells. -/
def text (cells : List Cell) : List Char :=
  cells.filterMap fun
    | char c _ => some c
    | mark => none

/-- The pattern that some cells are; protected characters stand for themselves. -/
def pattern (cells : List Cell) : List Char :=
  cells.flatMap fun
    | char c true => ['\\', c]
    | char c false => [c]
    | mark => []

end Cell

/-- A field that is being read, and those before it. -/
structure FieldReader where
  done : List (List Cell) := []
  /-- The cells of the field, the last one first. -/
  cells : List Cell := []
  /-- The number of fields that may still be ended; the last one takes everything. -/
  left : Option Nat
  /-- How many cells are kept in the end, where some are left out. -/
  kept : Option Nat := none
  /-- Whether blanks have just been passed over. -/
  isBlank : Bool := false
  /-- How the run and the one before it are split. -/
  splitting : Splitting := .never
  before : Splitting := .never

namespace FieldReader

/-- Whether a character separates fields; one that is a blank does so together with others. -/
def separates (separators : List Char) (reader : FieldReader) (c : Char) : Bool :=
  c == Cell.argumentEnd || (reader.splitting != .atArguments && separators.contains c)

def isBlankChar (c : Char) : Bool :=
  c == Cell.argumentEnd || c == ' ' || c == '\t' || c == '\n'

def keep (cell : Cell) (reader : FieldReader) : FieldReader :=
  { reader with cells := cell :: reader.cells }

/-- Goes on with a cell of the last field, whose separators at the end are left out. -/
def addLast (cell : Cell) (separator blank : Bool) (reader : FieldReader) : FieldReader :=
  let kept := reader.kept
  if blank then { reader.keep cell with kept := some (kept.getD reader.cells.length) }
  else
    { reader.keep cell with
      kept := if separator && reader.isBlank then kept else none
      isBlank := false }

/-- Ends the field. -/
def cut (reader : FieldReader) : FieldReader :=
  { reader with done := reader.cells.reverse :: reader.done, cells := [] }

/-- Goes on with a separator. -/
def addSeparator (cell : Cell) (blank : Bool) (reader : FieldReader) : FieldReader :=
  let ofArguments := reader.before = .atArguments || reader.splitting = .atArguments
  let reader := if ofArguments then reader else { reader with isBlank := blank }
  if reader.cells.isEmpty && reader.isBlank then { reader with isBlank := false }
  else
    match reader.left with
    | some 1 => { reader.keep cell with left := some 0, kept := some reader.cells.length }
    | left => { reader.cut with left := left.map (· - 1) }

/-- Goes on with a cell that may be a separator. -/
def addSplit (cell : Cell) (separator blank : Bool) (reader : FieldReader) : FieldReader :=
  if reader.left = some 0 then reader.addLast cell separator blank
  else if reader.isBlank then
    if blank then reader
    else if separator then { reader with isBlank := false }
    else { reader.keep cell with isBlank := false }
  else if separator then reader.addSeparator cell blank
  else reader.keep cell

/-- Goes on with a cell of a run that is split. -/
def addCell (separators : List Char) (cell : Cell) (reader : FieldReader) : FieldReader :=
  match cell with
  | .char c _ =>
    let separator := reader.separates separators c
    reader.addSplit cell separator (separator && isBlankChar c)
  | .mark => reader.addSplit cell false false

def addRun (separators : List Char) (reader : FieldReader) (run : Run) : FieldReader :=
  match run.splitting with
  | .never => { reader with cells := run.cells.reverse ++ reader.cells }
  | splitting =>
    let reader := { reader with splitting, before := reader.splitting, isBlank := false }
    run.cells.foldl (fun reader cell => reader.addCell separators cell) reader

/-- All fields; the last one counts if it holds anything, or an argument ends there. -/
def finish (reader : FieldReader) : List (List Cell) :=
  let endsArgument := reader.splitting = .atArguments
  let cells := reader.cells.reverse
  let last := if endsArgument then cells else cells.take (reader.kept.getD cells.length)
  (if endsArgument || !last.isEmpty then last :: reader.done else reader.done).reverse

end FieldReader

/-- The fields of an expanded word, at most `limit` of them. -/
def splitFields (separators : List Char) (limit : Option Nat) (runs : List Run) :
    List (List Cell) :=
  (runs.foldl (FieldReader.addRun separators) { left := limit }).finish

end BuildRunner.Shell
