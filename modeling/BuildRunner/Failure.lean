import BuildRunner.Console.Markup
import BuildRunner.Disk.Errno
import BuildRunner.Message.Format

/-!
# Failures

Everything that can end an operation early.  `Failure.message` is the wording of a failure;
`Failure.reason?` is the short wording that the file helpers report, which only failures of the
disk have.
-/

namespace BuildRunner

open BuildRunner.Text BuildRunner.Message

/-- What went wrong with one entry of a directory that was being copied. -/
inductive CopyFault
  | entry (source destination reason : String)
  /-- One character of the wording of a fault that was reported as a bare text. -/
  | letter (c : Char)
deriving DecidableEq, Repr

/-- The entry of a list of faults. -/
def CopyFault.text : CopyFault → String
  | .entry source destination reason =>
    "(" ++ quoted source ++ ", " ++ quoted destination ++ ", " ++ quoted reason ++ ")"
  | .letter c => quoted (String.ofList [c])

inductive Failure
  /-- The system refused an operation on up to two paths. -/
  | system (code : Errno) (path : Option String) (target : Option String)
  /-- A path or an argument holds the character NUL. -/
  | nullByte
  /-- A copy onto itself; the source comes in its literal form. -/
  | sameFile (source destination : String)
  | namedPipe (path : String)
  | missingDirectory (path : String)
  | occupied (path : String)
  | intoItself (source destination : String)
  /-- Some entries of a directory could not be copied. -/
  | copyFaults (faults : List CopyFault)
  | pollNotNumber (raw : String)
  | pollNegative (raw : String)
  | badMode (letter : String)
  | waitOnClosed (program : String)
  | alreadyClosed (program : String)
  /-- An operation was aborted on request. -/
  | aborted (message : String)
  | outOfRange (cause : RangeError)
  /-- A wait for a program failed with a text of its own. -/
  | waitRefused (text : String)
  | waitBroken (text : String)
  /-- A line for the console has a closing tag that closes nothing. -/
  | badMarkup (fault : Console.MarkupFault)
  /-- Tasks are left that are never resumed. -/
  | stalled
deriving DecidableEq, Repr

namespace Failure

def message : Failure → String
  | .system code path target =>
    "[Errno " ++ toString code.number ++ "] " ++ code.wording ++
      (path.elim "" fun p => ": " ++ quoted p) ++ (target.elim "" fun p => " -> " ++ quoted p)
  | .nullByte => "embedded null byte"
  | .sameFile source destination =>
    source ++ " and " ++ quoted destination ++ " are the same file"
  | .namedPipe path => "\x60" ++ path ++ "\x60 is a named pipe"
  | .missingDirectory path => "Directory does not exist: " ++ path
  | .occupied path => "Destination path '" ++ path ++ "' already exists"
  | .intoItself source destination =>
    "Cannot move a directory '" ++ source ++ "' into itself '" ++ destination ++ "'."
  | .copyFaults faults => "[" ++ String.intercalate ", " (faults.map CopyFault.text) ++ "]"
  | .pollNotNumber raw => "BUILDOS_POLL_INTERVAL must be a number, got " ++ quoted raw
  | .pollNegative raw => "BUILDOS_POLL_INTERVAL must not be negative, got " ++ quoted raw
  | .badMode letter => "invalid match mode: " ++ quoted letter
  | .waitOnClosed program => "wait on closed process " ++ quoted program
  | .alreadyClosed program => "process " ++ quoted program ++ " already closed"
  | .aborted message => message
  | .outOfRange cause => cause.message
  | .waitRefused text => text
  | .waitBroken text => text
  | .badMarkup fault => fault.message
  | .stalled => "no task can go on"

/-- The reason that the file helpers give; none for failures that are not about the disk. -/
def reason? : Failure → Option String
  | .system code _ _ => some code.wording
  | f@(.sameFile ..) | f@(.namedPipe _) | f@(.missingDirectory _) | f@(.occupied _)
  | f@(.intoItself ..) | f@(.copyFaults _) | f@(.waitRefused _) => some f.message
  | _ => none

/-- What an operation ends with that is aborted with a text, if any, and with values for it.  A
message that cannot be composed is a failure of its own. -/
def ofAbort (text : Option String) (values : List Value) : Failure :=
  match text with
  | none => .aborted ""
  | some text =>
    match compose text values with
    | .ok message => .aborted message
    | .error cause => .outOfRange cause

/-- Whether a failure comes from the disk or the system. -/
def isSystem (f : Failure) : Bool := f.reason?.isSome

end Failure

end BuildRunner
