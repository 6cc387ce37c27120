import BuildRunner.Disk.Errno
import BuildRunner.Disk.Node
import BuildRunner.Path

/-!
# Looking up paths

A path is looked up segment by segment from the root of the disk or from a current directory.
Symbolic links on the way are followed, up to a bound; whether a link at the end is followed
depends on the question.  A directory may be removed while a program is in it: a `Place` is a
directory of the tree, or a removed directory that remembers the way up to one.
-/

namespace BuildRunner

/-- A directory: the one at `base`, or one that was removed from below it. -/
structure Place where
  base : Location
  /-- The names of the removed directories on the way down. -/
  lost : List String := []
deriving DecidableEq, Repr, Inhabited

namespace Place

def root : Place := ⟨[], []⟩

/-- The directory above; the root is its own parent. -/
def up (place : Place) : Place :=
  match place.lost with
  | [] => { place with base := place.base.dropLast }
  | lost => { place with lost := lost.dropLast }

def down (place : Place) (name : String) : Place := { place with base := place.base ++ [name] }

/-- The entries of a directory; a removed one is empty. -/
def entries (tree : Node) (place : Place) : Node.Entries :=
  if place.lost.isEmpty then ((tree.get? place.base).elim [] Node.entries) else []

/-- The path of a directory that is still there. -/
def path? (place : Place) : Option String :=
  if place.lost.isEmpty then some ("/" ++ String.intercalate "/" place.base) else none

end Place

/-- The greatest number of bytes in a name. -/
def greatestName : Nat := 255

/-- The number of bytes that a path must stay below. -/
def pathLimit : Nat := 4096

/-- The number of links that one look-up may follow. -/
def linkLimit : Nat := 40

/-- The named segments of a path. -/
def pathNames (path : String) : List String :=
  ((Path.segments path.toList).filter fun s => !s.isEmpty).map String.ofList

/-- Whether a path asks for a directory by a slash at its end. -/
def endsInSlash (path : String) : Bool := path.toList.getLast? == some '/'

/-- Where a look-up starts. -/
def startPlace (here : Place) (path : String) : Place :=
  if Path.isAbsolute path then .root else here

/-- What a path leads to. -/
inductive Spot
  | directory (place : Place)
  | leaf (parent : Place) (name : String) (node : Node)
  /-- Nothing; the directory that could hold it is there. -/
  | vacant (parent : Place) (name : String)
deriving Inhabited, Repr

/-- The outcome of walking down a list of names as far as the first link. -/
inductive Descent
  | arrived (place : Place)
  | refused (code : Errno)
  | link (parent : Place) (target : String) (rest : List String)

/-- Walks down a list of names, all of which must be directories. -/
def descend (tree : Node) (place : Place) : List String → Descent
  | [] => .arrived place
  | name :: rest =>
    if name = "." then descend tree place rest
    else if name = ".." then descend tree place.up rest
    else if greatestName < name.utf8ByteSize then .refused .nameTooLong
    else
      match (place.entries tree).lookup name with
      | none => .refused .notFound
      | some (.dir ..) => descend tree (place.down name) rest
      | some (.link target) => .link place target rest
      | some _ => .refused .notDirectory

/-- Walks down a list of names and follows the links among them; the links that may still be
followed come with the result. -/
def enter (tree : Node) : (links : Nat) → Place → List String → Except Errno (Place × Nat)
  | links, place, names =>
    match descend tree place names with
    | .arrived place => .ok (place, links)
    | .refused code => .error code
    | .link parent target rest =>
      match links with
      | 0 => .error .linkLoop
      | links + 1 => enter tree links (startPlace parent target) (pathNames target ++ rest)

/-- Looks up a list of names from a place.  A link at the end is followed if `follow` is set or a
slash stands behind it.  The fuel bounds the links at the end. -/
def locateFrom (tree : Node) (follow : Bool) :
    (fuel links : Nat) → Place → List String → (slash : Bool) → Except Errno Spot
  | 0, _, _, _, _ => .error .linkLoop
  | fuel + 1, links, place, names, slash => do
    let (place, links) ← enter tree links place names.dropLast
    match names.getLast? with
    | none => .ok (.directory place)
    | some name =>
      if name = "." then .ok (.directory place)
      else if name = ".." then .ok (.directory place.up)
      else if greatestName < name.utf8ByteSize then .error .nameTooLong
      else
        match (place.entries tree).lookup name with
        | none => .ok (.vacant place name)
        | some (.dir ..) => .ok (.directory (place.down name))
        | some (.link target) =>
          if follow || slash then
            match links with
            | 0 => .error .linkLoop
            | links + 1 =>
              locateFrom tree follow fuel links (startPlace place target) (pathNames target)
                (slash || endsInSlash target)
          else .ok (.leaf place name (.link target))
        | some node => if slash then .error .notDirectory else .ok (.leaf place name node)

/-- A path that is not empty and not too long. -/
def checkPath (path : String) : Except Errno Unit :=
  if path.isEmpty then .error .notFound
  else if pathLimit ≤ path.utf8ByteSize then .error .nameTooLong
  else .ok ()

/-- What a path leads to from a directory. -/
def locate (tree : Node) (here : Place) (follow : Bool) (path : String) : Except Errno Spot := do
  checkPath path
  locateFrom tree follow (linkLimit + 1) linkLimit (startPlace here path) (pathNames path)
    (endsInSlash path)

/-- The last segment of a path. -/
inductive Tip
  | name (name : String) (slash : Bool)
  | dot
  | dotdot
  | root

/-- The directory that holds the last segment of a path, and that segment. -/
def tipOf (tree : Node) (here : Place) (path : String) : Except Errno (Place × Tip) := do
  checkPath path
  let names := pathNames path
  let (place, _) ← enter tree linkLimit (startPlace here path) names.dropLast
  match names.getLast? with
  | none => .ok (place, .root)
  | some name =>
    if name = "." then .ok (place, .dot)
    else if name = ".." then .ok (place, .dotdot)
    else .ok (place, .name name (endsInSlash path))

/-- The directory and the name that a path opens for writing, links at the end followed. -/
def writableFrom (tree : Node) :
    (fuel links : Nat) → Place → List String → (slash : Bool) → Except Errno (Place × String)
  | 0, _, _, _, _ => .error .linkLoop
  | fuel + 1, links, place, names, slash => do
    let (place, links) ← enter tree links place names.dropLast
    match names.getLast? with
    | none => .error .isDirectory
    | some name =>
      if name = "." ∨ name = ".." ∨ slash then .error .isDirectory
      else if greatestName < name.utf8ByteSize then .error .nameTooLong
      else
        match (place.entries tree).lookup name with
        | some (.link target) =>
          match links with
          | 0 => .error .linkLoop
          | links + 1 =>
            writableFrom tree fuel links (startPlace place target) (pathNames target)
              (endsInSlash target)
        | some (.dir ..) => .error .isDirectory
        | _ => .ok (place, name)

def writable (tree : Node) (here : Place) (path : String) : Except Errno (Place × String) := do
  checkPath path
  writableFrom tree (linkLimit + 1) linkLimit (startPlace here path) (pathNames path)
    (endsInSlash path)

end BuildRunner
