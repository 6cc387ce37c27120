import BuildRunner.Path
import BuildRunner.Glob.Regex

/-!
# Patterns

A pattern is a glob, and behind a bar any number of globs to exclude.  It is compiled to the
directory that a walk starts in, the number of levels that the walk may descend, and the expression
that the path of an entry has to match.
-/

namespace BuildRunner.Glob

/-- The glob before the first bar, and the non-empty ones behind it. -/
def globAndExcludes (glob : String) : String × List String :=
  match glob.toList.splitOn '|' with
  | [] => ("", [])
  | main :: excludes =>
    (String.ofList main, (excludes.filter fun e => !e.isEmpty).map String.ofList)

/-- A glob in normal form, with either slash as separator; the empty glob stays empty. -/
def normalGlob (glob : String) : String :=
  if glob.isEmpty then glob
  else String.ofList (Path.normal (glob.toList.map fun c => if c = '\\' then '/' else c))

/-- The directory part of what stands before the first star. -/
def walkRoot (glob : String) : String :=
  match Path.parentChars (glob.toList.takeWhile (· != '*')) with
  | [] => "."
  | directory => String.ofList directory

/-- The number of levels below the root directory that a glob without two stars describes. -/
def walkLevels (glob root : String) : Nat :=
  let rest :=
    if root = "." then glob.toList
    else (glob.toList.drop root.length).dropWhile (· == '/')
  rest.count '/' + 1

/-- Whether a glob holds two stars in a row. -/
def isRecursive (glob : String) : Bool := (tokens glob.toList).contains .deep

structure Pattern where
  /-- The normal form of the glob. -/
  glob : String
  /-- Matches the path of an entry, written from the root directory on. -/
  regex : Regex
  root : String
  recursive : Bool
  /-- Matched against the path below the root directory. -/
  excludes : List Regex
  /-- The number of levels to walk, unless all of them are. -/
  levels : Option Nat

/-- Compiles a pattern.  Paths below the current directory are walked as `./name`, so that the
expression of a pattern without directory part starts with `./`. -/
def Pattern.compile (pattern : String) : Pattern :=
  let (main, excludes) := globAndExcludes pattern
  let glob := normalGlob main
  let root := walkRoot glob
  let recursive := isRecursive glob
  let regex := Regex.ofGlob glob.toList
  { glob
    regex := if root = "." then Regex.ofText ['.', '/'] ++ regex else regex
    root
    recursive
    excludes := excludes.map fun e => Regex.ofGlob (normalGlob e).toList
    levels := if recursive then none else some (walkLevels glob root) }

/-- Whether a path below the root directory is excluded. -/
def Pattern.isExcluded (excludes : List Regex) (path : String) : Bool :=
  excludes.any fun regex => regex.fullMatch path.toList

end BuildRunner.Glob
