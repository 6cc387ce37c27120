import BuildRunner.Disk.Basic
import BuildRunner.Glob.Mode
import BuildRunner.Glob.Pattern

/-!
# Walks

A walk visits the entries below a directory: first all entries of the directory in the order of
their names, then, in the same order, what lies below each of its subdirectories.  A link to a
directory counts as a directory and is not entered.  `Disk.listing` says what there is to visit,
`walk` visits it down to a level, and `find` selects the visits that a search asks for.
-/

namespace BuildRunner

open BuildRunner.Glob

/-- An entry as a walk sees it. -/
inductive Listed
  | other
  /-- A link that leads to a directory. -/
  | linkedDir
  | dir (entries : List (String × Listed))
deriving Inhabited, Repr

/-- Puts an entry into a list that is in the order of names. -/
def insertByName {α : Type} (entry : String × α) : List (String × α) → List (String × α)
  | [] => [entry]
  | other :: rest =>
    if other.1 < entry.1 then other :: insertByName entry rest else entry :: other :: rest

namespace Listed

def isDir : Listed → Bool
  | .other => false
  | _ => true

end Listed

namespace Node

mutual

/-- The entry of a path as a walk sees it.  `leadsToDir` tells of the path of a link whether it leads
to a directory.  A directory whose path is too long cannot be listed. -/
def listed (leadsToDir : String → Bool) (path : String) : Node → Listed
  | .dir es _ =>
    .dir (if path.utf8ByteSize < pathLimit then listedEntries leadsToDir path es else [])
  | .link _ => if leadsToDir path then .linkedDir else .other
  | _ => .other

/-- The entries of the directory of a path, in the order of their names. -/
def listedEntries (leadsToDir : String → Bool) (top : String) :
    List (String × Node) → List (String × Listed)
  | [] => []
  | (name, node) :: rest =>
    insertByName (name, listed leadsToDir (Path.join top name) node)
      (listedEntries leadsToDir top rest)

end

end Node

/-- What a walk can visit that starts at a path, which leads to the directory at a place. -/
def Disk.listing (d : Disk) (root : String) (place : Place) : List (String × Listed) :=
  Node.listedEntries d.isDirectory root (place.entries d.tree)

/-- An entry that is visited: its path from the start of the walk on, its path below the start,
and whether it is a directory. -/
structure Visit where
  path : String
  below : String
  isDir : Bool
deriving DecidableEq, Repr

/-- The level of a directory, from its path as seen from the start of the walk. -/
def levelOf (seen : String) : Nat := if seen = "." then 0 else seen.toList.count '/' + 1

/-- The visits of the entries of a directory; `seen` is its path as seen from the start. -/
def visitsHere (top seen : String) (entries : List (String × Listed)) : List Visit :=
  entries.map fun (name, entry) =>
    ⟨Path.join top name, if levelOf seen = 0 then name else Path.join seen name, entry.isDir⟩

/-- Whether the directories of a level are entered. -/
def entersBelow (limit : Option Nat) (level : Nat) : Bool := limit.all (level + 1 < ·)

mutual

/-- The visits below the directory of a path.  `seen` gives paths as seen from the start. -/
def Listed.visitsBelow (limit : Option Nat) (seen : String → String) (top : String) :
    Listed → List Visit
  | .dir es =>
    visitsHere top (seen top) es ++
      if entersBelow limit (levelOf (seen top)) then visitsBelowEach limit seen top es else []
  | _ => []

/-- The visits below each of the entries of a directory. -/
def visitsBelowEach (limit : Option Nat) (seen : String → String) (top : String) :
    List (String × Listed) → List Visit
  | [] => []
  | (name, entry) :: rest =>
    entry.visitsBelow limit seen (Path.join top name) ++ visitsBelowEach limit seen top rest

end

/-- The visits of a walk from `top`, down to `limit` levels if there is a limit.  Levels are counted
on the paths as seen from `top`, and `here` is where relative paths start. -/
def walk (limit : Option Nat) (here top : String) (entries : List (String × Listed)) :
    List Visit :=
  (Listed.dir entries).visitsBelow limit (fun path => Path.relative here path top) top

/-- What to look for. -/
structure Search where
  regex : Regex
  recursive : Bool := false
  mode : Mode := .files
  excludes : List Regex := []
  levels : Option Int := none

/-- The number of levels that are walked for a wanted number: at least one. -/
def walkedLevels (levels : Option Int) : Nat := (max (levels.getD 1) 1).toNat

namespace Search

/-- The number of levels to walk, unless all of them are. -/
def limit (search : Search) : Option Nat :=
  if search.recursive then none else some (walkedLevels search.levels)

def selects (search : Search) (visit : Visit) : Bool :=
  search.mode.accepts visit.isDir && search.regex.fullMatch visit.path.toList &&
    !Pattern.isExcluded search.excludes visit.below

end Search

/-- Where the paths below a directory start when they are told apart by their absolute form: a
relative directory needs a current one. -/
def Disk.searchBase (d : Disk) (root : String) : Option String :=
  if Path.isAbsolute root then some "/" else d.cwd.path?

/-- The paths below a directory, down to `limit` levels, whose visits are selected. -/
def Disk.findSelected (d : Disk) (root : String) (limit : Option Nat) (selects : Visit → Bool) :
    Except Errno (List String) :=
  if hasNul root then .ok []
  else
    match d.locate true root with
    | .ok (.directory place) =>
      match d.searchBase root with
      | some here =>
        .ok (((walk limit here root (d.listing root place)).filter selects).map Visit.path)
      | none => .error .notFound
    | _ => .ok []

/-- The paths that a search finds below a directory. -/
def Disk.find (d : Disk) (root : String) (search : Search) : Except Errno (List String) :=
  d.findSelected root search.limit search.selects

end BuildRunner
