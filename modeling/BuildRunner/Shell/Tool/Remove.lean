import BuildRunner.Shell.Tool.Options

/-!
# Removing entries

`rm` removes files, and whole trees where it is told to.  It may ask before it removes something;
the answer is a line of the input.
-/

namespace BuildRunner.Shell

/-- When questions are asked. -/
inductive Caution
  | never
  | usual
  | always
deriving DecidableEq, Repr, Inhabited

structure RemoveStyle where
  caution : Caution := .usual
  /-- Whether it is no fault if there is nothing to remove. -/
  ignoresMissing : Bool := false
  /-- Whether a question is asked before many entries are removed. -/
  asksOnce : Bool := false
  isRecursive : Bool := false
  /-- Whether empty directories are removed. -/
  removesEmpty : Bool := false
  tells : Bool := false
  sparesRoot : Bool := true
deriving DecidableEq, Repr, Inhabited

/-- The answer to a question. -/
inductive Consent
  | given
  | denied
  | fault
deriving DecidableEq, Repr, Inhabited

/-- What kind of entry a node is, in a question. -/
def nodeKind : Node → String
  | .file [] _ _ => "regular empty file"
  | .file .. => "regular file"
  | .dir .. => "directory"
  | .link _ => "symbolic link"
  | .pipe => "fifo"
  | .null => "character special file"

/-- A path without all but one of the slashes at its end. -/
def trimmedPath (path : String) : String :=
  let back := path.toList.reverse
  let slashes := back.takeWhile (· == '/')
  if path.length ≤ 2 || slashes.length < 2 then path
  else String.ofList ('/' :: back.drop slashes.length).reverse

/-- The path of an entry of a directory. -/
def childPath (path name : String) : String :=
  if path.toList.getLast? = some '/' then path ++ name else path ++ "/" ++ name

namespace Tool

def removeOptions : List ToolOption :=
  [{ key := "force", letter := 'f', name := "force" },
    { key := "always", letter := 'i' }, { key := "once", letter := 'I' },
    { key := "interactive", name := "interactive", argument := .perhaps },
    { key := "one-file-system", name := "one-file-system" },
    { key := "no-preserve-root", name := "no-preserve-root" },
    { key := "preserve-root", name := "preserve-root", argument := .perhaps },
    { key := "recursive", letter := 'r', name := "recursive" },
    { key := "recursive", letter := 'R' },
    { key := "dir", letter := 'd', name := "dir" },
    { key := "verbose", letter := 'v', name := "verbose" }] ++ commonOptions

/-- The style after one more option. -/
def styleWith (style : RemoveStyle) (option : String × Option String) : Tool RemoveStyle := do
  let never : RemoveStyle := { style with caution := .never, asksOnce := false }
  let once : RemoveStyle :=
    { style with caution := .usual, ignoresMissing := false, asksOnce := true }
  let always : RemoveStyle :=
    { style with caution := .always, ignoresMissing := false, asksOnce := false }
  match option with
  | ("force", _) => return { never with ignoresMissing := true }
  | ("always", _) => return always
  | ("once", _) => return once
  | ("interactive", none) => return always
  | ("interactive", some text) =>
    match ← wordGroup "interactive" text [["never", "no", "none"], ["once"], ["always", "yes"]] with
    | 0 => return never
    | 1 => return once
    | _ => return always
  | ("preserve-root", some text) =>
    if text = "all" then return { style with sparesRoot := true }
    else fail ["unrecognized --preserve-root argument: ", quotedText text]
  | ("preserve-root", none) => return { style with sparesRoot := true }
  | ("no-preserve-root", _) => return { style with sparesRoot := false }
  | ("recursive", _) => return { style with isRecursive := true }
  | ("dir", _) => return { style with removesEmpty := true }
  | ("verbose", _) => return { style with tells := true }
  | _ => return style

/-- Reads the input, a file one byte at a time, so that the rest of it is left for others. -/
def typedBytes : Tool (Except Errno Text.Bytes) := do
  match ← ask (.stream 0) with
  | some (.file ..) => ask (.read 0 1)
  | _ => ask (.read 0 4096)

/-- Reads more of the input, until it holds the end of a line. -/
def typedLine : (fuel : Nat) → Tool (List Char)
  | 0 => return []
  | fuel + 1 => do
    let typed := (← get).typed
    let line := typed.takeWhile (· != '\n')
    if line.length < typed.length then
      modify fun s => { s with typed := typed.drop (line.length + 1) }
      return line
    else
      match ← typedBytes with
      | .ok [] =>
        modify fun s => { s with typed := [] }
        return typed
      | .ok bytes =>
        modify fun s => { s with typed := typed ++ ofBytes bytes }
        typedLine fuel
      | .error _ =>
        modify fun s => { s with typed := [], hasLostInput := true }
        return typed

/-- Asks a question. -/
def agrees (question : List String) : Tool Bool := do
  prompt question
  let line ← typedLine 1000000
  return line.head?.any "yY".toList.contains

/-- A complaint about an entry that cannot be removed. -/
def cannotRemove (path : String) (code : Errno) : Tool Unit :=
  complain ["cannot remove ", shownName true path, ": ", code.wording]

/-- Asks whether an entry may be removed, or a directory entered. -/
def consent (style : RemoveStyle) (path : String) (node : Node) (enters : Bool) : Tool Consent := do
  if style.caution != .always then return .given
  let isAgreed ← if enters then agrees ["descend into directory ", shownName true path, "? "]
    else agrees ["remove ", nodeKind node, " ", shownName true path, "? "]
  return if isAgreed then .given else .denied

/-- Removes an entry; tells whether that was possible. -/
def cutOut (style : RemoveStyle) (path : String) (isDirectory : Bool) : Tool Bool := do
  let change (d : Disk) : Except Errno Disk :=
    if isDirectory then d.removeDirectory (widen path) else d.unlink (widen path)
  match ← ask (.change change) with
  | .ok () =>
    if style.tells then
      let what := if isDirectory then "removed directory " else "removed "
      out (what ++ shownName true path ++ "\n")
    return true
  | .error code =>
    if style.ignoresMissing && (code = .notFound || code = .notDirectory) then return true
    cannotRemove path code
    return false

/-- Whether a directory must be left alone, which is told. -/
def isSpared (style : RemoveStyle) (path : String) (place : Place) : Tool Bool := do
  let last := ((pathNames path).getLast?).getD ""
  if last = "." || last = ".." then
    complain ["refusing to remove ", shownName true ".", " or ", shownName true "..",
      " directory: skipping ", shownName true path]
    return true
  else if style.isRecursive && style.sparesRoot && place = Place.root then
    let same := if path = "/" then [] else [" (same as ", shownName true "/", ")"]
    complain (["it is dangerous to operate recursively on ", shownName true path] ++ same)
    complain ["use --no-preserve-root to override this failsafe"]
    return true
  else return false

/-- Removes an entry and everything below it; tells whether the directory above can go as well. -/
def removeTree (style : RemoveStyle) : (fuel : Nat) → (isNamed : Bool) → String → Tool Bool
  | 0, _, _ => return false
  | fuel + 1, isNamed, path => do
    let d ← ask .disk
    match d.status false (widen path) with
    | .error code =>
      if style.ignoresMissing && (code = .notFound || code = .notDirectory) then return true
      cannotRemove path code
      return false
    | .ok (place, .dir entries modified) =>
      if !style.isRecursive && !(style.removesEmpty && entries.isEmpty) then
        cannotRemove path (if style.removesEmpty then .directoryNotEmpty else .isDirectory)
        return false
      if isNamed then
        if ← isSpared style path place then return false
      let node : Node := .dir entries modified
      match ← consent style path node (!entries.isEmpty) with
      | .given =>
        if style.caution = .always && entries.isEmpty then return ← cutOut style path true
        let removed ← entries.mapM fun entry =>
          removeTree style fuel false (childPath path (narrow entry.1))
        if !removed.all id then return false
        match ← consent style path node false with
        | .given => cutOut style path true
        | _ => return true
      | _ => return false
    | .ok (_, node) =>
      match ← consent style path node false with
      | .given => cutOut style path false
      | _ => return true

/-- The greatest depth of a tree that is removed. -/
def depthLimit : Nat := 4096

/-- Hints at an argument that was meant as a name. -/
def hintAtName (arguments : List String) : Tool Unit := do
  let d ← ask .disk
  let name := (← get).name
  let isMeant (argument : String) : Bool :=
    argument.toList.head? = some '-' && 1 < argument.length && d.entryExists (widen argument)
  match arguments.find? isMeant with
  | some argument =>
    say (String.join ["Try '", name, " ./", shownName false argument, "' to remove the file ",
      shownName true argument, ".\n"])
  | none => pure ()

/-- Complains about an input that could not be read. -/
def checkInput : Tool Unit := do
  if (← get).hasLostInput then
    let isClosed := (← ask (.stream 0)).isNone
    complain ("error closing file" :: if isClosed then [": ", Errno.badStream.wording] else [])

def remove (mixed : Bool) (arguments : List String) : Tool Unit := do
  let given := Given.ofArguments removeOptions mixed none arguments
  let style ← given.options.foldlM styleWith {}
  match given.fault with
  | some fault =>
    complain fault.wording
    hintAtName arguments
    giveHint
  | none => checkOptions given
  let paths := given.operands
  if paths.isEmpty then
    if style.ignoresMissing then finish 0 else misused ["missing operand"]
  if style.asksOnce && (style.isRecursive || 3 < paths.length) then
    let ending := if paths.length = 1 then "" else "s"
    let question := ["remove ", toString paths.length, " argument", ending,
      if style.isRecursive then " recursively? " else "? "]
    if !(← agrees question) then
      checkInput
      let hasLostInput := (← get).hasLostInput
      finish (if hasLostInput then 1 else 0)
  paths.forM fun path => discard (removeTree style depthLimit true (trimmedPath path))
  checkInput

end Tool

end BuildRunner.Shell
