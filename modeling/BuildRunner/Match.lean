import BuildRunner.Machine
import BuildRunner.Walk

/-!
# Matching

`matchPaths` lists the paths that a pattern describes on the disk of a machine.  A pattern without a
star names at most one entry, which is looked up directly; any other pattern is walked for.  The
arguments of programs are expanded with the same rules.
-/

namespace BuildRunner

open BuildRunner.Glob

/-- The entry that a pattern without a star names.  It is given back as it was spelled if that
spelling resolves, and in normal form otherwise. -/
def Disk.findLiteral (d : Disk) (pattern : Pattern) (spelling : String) (mode : Mode) :
    List String :=
  let path? :=
    if d.entryExists spelling then some spelling
    else if d.entryExists pattern.glob then some pattern.glob
    else none
  match path? with
  | none => []
  | some path =>
    if mode.accepts (d.isDirectory path) &&
        !Pattern.isExcluded pattern.excludes (Path.name pattern.glob) then [path]
    else []

/-- The search for the entries that a pattern with a star describes. -/
def Glob.Pattern.search (pattern : Pattern) (mode : Mode) : Search :=
  { regex := pattern.regex
    recursive := pattern.recursive
    mode
    excludes := pattern.excludes
    levels := pattern.levels.map Int.ofNat }

/-- The path without the `./` that a walk of the current directory puts before it. -/
def withoutAnchor (path : String) : String := String.ofList (path.toList.drop 2)

/-- The paths that a pattern describes. -/
def Disk.matchPattern (d : Disk) (pattern : String) (mode : Mode) :
    Except Errno (List String) := do
  let compiled := Pattern.compile pattern
  if compiled.glob.toList.contains '*' then
    let paths ← d.find compiled.root (compiled.search mode)
    .ok (if compiled.root = "." then paths.map withoutAnchor else paths)
  else .ok (d.findLiteral compiled (globAndExcludes pattern).1 mode)

namespace Act

variable {κ : Type}

/-- The paths that a search finds below a directory. -/
def find (root : String) (search : Search) : Act κ (List String) := do
  match (← get).disk.find root search with
  | .ok paths => return paths
  | .error code => throw (.system code none none)

/-- The paths that a pattern describes, traced if the settings ask for it. -/
def matchPaths (pattern : String) (mode : Mode) : Act κ (List String) := do
  if pattern.isEmpty then return []
  match (← get).disk.matchPattern pattern mode with
  | .error code => throw (.system code none none)
  | .ok paths =>
    if ← verbose then
      remark ("match " ++ Console.escape pattern ++ " -> " ++ toString paths.length ++ " path(s)")
    return paths

/-- The paths that a pattern describes, in the mode that a value asks for. -/
def matchValue (pattern : String) (mode : Message.Value) : Act κ (List String) := do
  match Mode.ofValue? mode with
  | some mode => matchPaths pattern mode
  | none => throw (.badMode (String.ofList mode.plain))

/-- One argument with its stars expanded; it is kept where they match nothing. -/
def expandArgument (argument : String) : Act κ (List String) := do
  if argument.toList.contains '*' then
    let paths ← matchPaths argument .any
    return if paths.isEmpty then [argument] else paths
  else return [argument]

/-- The arguments with their stars expanded. -/
def expandArguments : List String → Act κ (List String)
  | [] => return []
  | argument :: rest => do
    let first ← expandArgument argument
    let others ← expandArguments rest
    return first ++ others

end Act

end BuildRunner
