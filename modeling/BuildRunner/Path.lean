/-!
# Path names

A path name is a text in which slashes separate segments.  Nothing here looks at a disk: joining,
splitting and normalising are operations on the text alone.
-/

namespace BuildRunner.Path

/-- Texts joined by slashes. -/
def joinSegments : List (List Char) → List Char
  | [] => []
  | [s] => s
  | s :: r => s ++ '/' :: joinSegments r

/-- The segments between the slashes of a path; there is always at least one. -/
def segments (path : List Char) : List (List Char) := path.splitOn '/'

/-- The number of slashes that a normal form starts with: one or two as written, one for more. -/
def leadingSlashes (path : List Char) : Nat :=
  match (path.takeWhile (· == '/')).length with
  | 0 => 0
  | 2 => 2
  | _ => 1

/-- The segments kept so far, last one first, after one more segment.  `rooted` paths have nothing
above them, so that `..` at their start is dropped. -/
def pushSegment (rooted : Bool) (kept : List (List Char)) (segment : List Char) :
    List (List Char) :=
  if segment = [] ∨ segment = ['.'] then kept
  else if segment = ['.', '.'] then
    match kept with
    | [] => if rooted then [] else [segment]
    | last :: rest => if last = ['.', '.'] then segment :: kept else rest
  else segment :: kept

/-- The segments of the normal form of a path. -/
def normalSegments (path : List Char) : List (List Char) :=
  ((segments path).foldl (pushSegment (leadingSlashes path != 0)) []).reverse

/-- The normal form of a path: no empty or `.` segments, `..` only where it cannot be resolved, and
`.` for the path that names no segment. -/
def normal (path : List Char) : List Char :=
  let body := List.replicate (leadingSlashes path) '/' ++ joinSegments (normalSegments path)
  if body = [] then ['.'] else body

/-- Whether a path starts at the root of the disk. -/
def isAbsolute (path : String) : Bool := path.toList.head? == some '/'

/-- `name` as seen from `directory`. -/
def join (directory name : String) : String :=
  if isAbsolute name then name
  else if directory.isEmpty || directory.toList.getLast? == some '/' then directory ++ name
  else directory ++ "/" ++ name

/-- The text without the slashes at its end. -/
def dropSlashes (path : List Char) : List Char := (path.reverse.dropWhile (· == '/')).reverse

/-- What stands behind the last slash. -/
def lastPart (path : List Char) : List Char := (path.reverse.takeWhile (· != '/')).reverse

/-- What stands up to the last slash, itself included. -/
def leadingPart (path : List Char) : List Char := (path.reverse.dropWhile (· != '/')).reverse

/-- The directory part of a path: the leading part without its last slashes, unless it consists of
slashes. -/
def parentChars (path : List Char) : List Char :=
  let head := leadingPart path
  if head.all (· == '/') then head else dropSlashes head

def parent (path : String) : String := String.ofList (parentChars path.toList)

/-- The name part of a path, empty where the path ends in a slash. -/
def name (path : String) : String := String.ofList (lastPart path.toList)

/-- The last segment of a path, whether or not slashes follow it. -/
def lastSegment (path : String) : String := String.ofList (lastPart (dropSlashes path.toList))

/-- The normal form of a path, as a text. -/
def normalize (path : String) : String := String.ofList (normal path.toList)

/-- The normal form of a path as seen from `directory`. -/
def absolute (directory path : String) : String :=
  normalize (if isAbsolute path then path else join directory path)

/-- What is left of two lists once their common start is taken off. -/
def dropCommon {α : Type} [DecidableEq α] : List α → List α → List α × List α
  | a :: as, b :: bs => if a = b then dropCommon as bs else (a :: as, b :: bs)
  | as, bs => (as, bs)

/-- The segments of the absolute form of a path as seen from `here`. -/
def absoluteSegments (here path : String) : List (List Char) :=
  (segments (absolute here path).toList).filter fun s => !s.isEmpty

/-- A path as seen from `start`, both as seen from `here`. -/
def relative (here path start : String) : String :=
  let (above, below) := dropCommon (absoluteSegments here start) (absoluteSegments here path)
  match above.map (fun _ => ['.', '.']) ++ below with
  | [] => "."
  | parts => String.ofList (joinSegments parts)

end BuildRunner.Path
