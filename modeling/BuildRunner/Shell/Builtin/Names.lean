import BuildRunner.Shell.Builtin.Options
import BuildRunner.Shell.Search

/-!
# Commands about the names of commands

These commands tell what names stand for, and give names to texts that are read in their place.
-/

namespace BuildRunner.Shell

namespace Script

/-- What is told of a name. -/
def description (isVerbose : Bool) (path? : Option String) (name : String) :
    Script (String × Nat) := do
  let session ← get
  let told (brief verbose : String) : Script (String × Nat) :=
    return ((if isVerbose then name ++ verbose else brief) ++ "\n", 0)
  if reservedWords.contains name then told name " is a shell keyword"
  else
    match session.aliases.lookup name with
    | some text => told ("alias " ++ name ++ "=" ++ quotedWord text) (" is an alias for " ++ text)
    | none =>
      let wasFound := path?.isNone && (session.found.lookup name).isSome
      match ← meaning false true (path?.getD session.path) name with
      | .ofShell isSpecial =>
        told name (if isSpecial then " is a special shell builtin" else " is a shell builtin")
      | .function _ => told name " is a shell function"
      | .program paths =>
        let path := paths.headD name
        told path ((if wasFound then " is a tracked alias for " else " is ") ++ path)
      | .nothing _ => return (if isVerbose then name ++ ": not found\n" else "", 127)

def typeCommand (arguments : List String) : Script Nat := do
  let names ← operands arguments
  names.foldlM (fun status name => do
    let (text, code) ← description true none name
    out text
    return status ||| code) 0

/-- The search path for the programs that every machine has. -/
def standardPath : String := "/usr/local/sbin:/usr/local/bin:/usr/sbin:/usr/bin:/sbin:/bin"

/-- `command`, where it only tells what a name stands for. -/
def commandCommand (arguments : List String) : Script Nat := do
  let (letters, names) ← options "pvV" arguments
  let letters := letters.map Prod.fst
  match letters.filter (· != 'p'), names with
  | [], _ | _, [] => return 0
  | kinds, name :: _ =>
    let path? := if letters.contains 'p' then some standardPath else none
    let (text, status) ← description (kinds.contains 'V') path? name
    out text
    return status

/-- The number of groups in which programs that were found are listed. -/
def programGroups : Nat := 31

def hashCommand (arguments : List String) : Script Nat := do
  let (letters, names) ← options "r" arguments
  let session ← get
  if letters.any fun l => l.1 == 'r' then
    modify fun s => { s with found := [] }
    return 0
  if names.isEmpty then
    let d ← ask .disk
    (inGroups programGroups session.found).forM fun (name, isOld) => do
      match programPaths d session.path name with
      | .ok (path :: _) => out (path ++ (if isOld then "*" else "") ++ "\n")
      | _ => return
    return 0
  names.foldlM (fun status name => do
    modify fun s => { s with found := s.found.filter fun entry => entry.1 != name }
    match ← meaning false false session.path name with
    | .nothing code =>
      complain [name, ": ", if code = .notFound then "not found" else code.wording]
      return 1
    | _ => return status) 0

/-- The number of groups in which aliases are listed. -/
def aliasGroups : Nat := 39

/-- The aliases with a new one, or with a new text for one. -/
def putAlias (name text : String) (aliases : List (String × String)) : List (String × String) :=
  if (aliases.lookup name).isSome then
    aliases.map fun entry => if entry.1 = name then (name, text) else entry
  else aliases ++ [(name, text)]

def shownAlias (name text : String) : String := name ++ "=" ++ quotedWord text ++ "\n"

def aliasCommand (arguments : List String) : Script Nat := do
  let aliases := (← get).aliases
  if arguments.isEmpty then
    (inGroups aliasGroups aliases).forM fun (name, text) => out (shownAlias name text)
    return 0
  arguments.foldlM (fun status argument => do
    match splitAssignment (String.ofList (argument.toList.drop 1)) with
    | (_, none) =>
      match (← get).aliases.lookup argument with
      | some text =>
        out (shownAlias argument text)
        return status
      | none =>
        say 2 ("alias: " ++ argument ++ " not found\n")
        return 1
    | (rest, some text) =>
      let name := String.ofList (argument.toList.take 1) ++ rest
      modify fun s => { s with aliases := putAlias name text s.aliases }
      return status) 0

def unaliasCommand (arguments : List String) : Script Nat := do
  let (letters, names) ← options "a" arguments
  if !letters.isEmpty then
    modify fun s => { s with aliases := [] }
    return 0
  names.foldlM (fun status name => do
    if ((← get).aliases.lookup name).isNone then
      say 2 ("unalias: " ++ name ++ " not found\n")
      return 1
    modify fun s => { s with aliases := s.aliases.filter fun a => a.1 != name }
    return status) 0

end Script

end BuildRunner.Shell
