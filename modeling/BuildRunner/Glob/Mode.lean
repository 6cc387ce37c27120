import BuildRunner.Message.Value

/-!
# Match modes

A match asks for files, for directories, or for both.  A mode is given as one of three letters; any
other value asks for directories where it counts as true and for files where it does not.
-/

namespace BuildRunner.Glob

inductive Mode
  | any
  | files
  | directories
deriving DecidableEq, Repr

namespace Mode

def accepts (mode : Mode) (isDirectory : Bool) : Bool :=
  match mode with
  | .any => true
  | .files => !isDirectory
  | .directories => isDirectory

def ofLetter? (letter : String) : Option Mode :=
  if letter = "a" then some .any
  else if letter = "f" then some .files
  else if letter = "d" then some .directories
  else none

/-- The mode that a value asks for; none for a text that is not a mode letter. -/
def ofValue? : Message.Value → Option Mode
  | .text letter => ofLetter? letter
  | v => some (if v.isTrue then .directories else .files)

end Mode

end BuildRunner.Glob
