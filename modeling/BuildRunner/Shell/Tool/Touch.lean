import BuildRunner.Shell.Tool.Date
import BuildRunner.Shell.Tool.Options

/-!
# Renewing modification times

`touch` makes files that are missing, and gives the others the present as their modification time,
or another one that is asked for.
-/

namespace BuildRunner.Shell

/-- The disk where the entry that a path leads to has another modification time, or the present
one. -/
def dated (d : Disk) (follow : Bool) (modified : Option Int) (path : String) :
    Except Errno Disk := do
  let (place, _) ← d.status follow path
  if place.lost.isEmpty then .ok { d with tree := d.tree.modify (Node.dated modified) place.base }
  else .ok d

/-- The disk where a path leads to a file, if that was missing. -/
def made (d : Disk) (path : String) : Except Errno Disk := do
  let (new, _) ← d.openFile true path
  .ok { new with files := d.files }

namespace Tool

def touchOptions : List ToolOption :=
  [{ key := "access", letter := 'a' }, { key := "no-create", letter := 'c', name := "no-create" },
    { key := "date", letter := 'd', name := "date", argument := .always },
    { key := "f", letter := 'f' },
    { key := "no-dereference", letter := 'h', name := "no-dereference" },
    { key := "modify", letter := 'm' },
    { key := "reference", letter := 'r', name := "reference", argument := .always },
    { key := "stamp", letter := 't', argument := .always },
    { key := "time", name := "time", argument := .always }] ++ commonOptions

/-- Checks the arguments of options as they come. -/
def checkTouch (option : String × Option String) : Tool Unit := do
  match option with
  | ("stamp", some text) =>
    if (stampedMoment? text).isNone then fail ["invalid date format ", quotedText text]
  | _ => pure ()

/-- Whether modification times are to be changed. -/
def changesModified (given : Given) : Tool Bool := do
  let kinds ← given.options.mapM fun option => do
    match option with
    | ("access", _) => return [0]
    | ("modify", _) => return [1]
    | ("time", some text) =>
      return [← wordGroup "time" text [["atime", "access", "use"], ["mtime", "modify"]]]
    | option =>
      checkTouch option
      return []
  return kinds.flatten.isEmpty || kinds.flatten.contains 1

/-- The modification time that is asked for; none stands for the present. -/
def wantedTime (given : Given) : Tool (Option Int) := do
  let stamp := (given.value? "stamp").bind stampedMoment?
  match given.value? "reference", given.value? "date" with
  | some path, date? =>
    if stamp.isSome then misused ["cannot specify times from more than one source"]
    let d ← ask .disk
    match d.status (!given.has "no-dereference") (widen path) with
    | .error code => fail ["failed to get attributes of ", shownName true path, ": ", code.wording]
    | .ok (_, node) =>
      match date? with
      | none => return node.modified?
      | some text =>
        match dateOf? text with
        | some date => return date
        | none => fail ["invalid date format ", quotedText text]
  | none, some text =>
    match dateOf? text with
    | some date =>
      if stamp.isSome then misused ["cannot specify times from more than one source"]
      return date
    | none => fail ["invalid date format ", quotedText text]
  | none, none => return (stamp.join).map Moment.seconds

/-- Renews the time of what a path leads to. -/
def touchPath (given : Given) (changes : Bool) (time : Option Int) (path : String) : Tool Unit := do
  if path = "-" then
    if (← ask (.stream 1)).isNone && !given.has "no-create" then
      complain ["setting times of ", shownName true path, ": ", Errno.badStream.wording]
  else
    let follow := !given.has "no-dereference"
    let unmade ← if given.has "no-create" || !follow then pure none
      else
        match ← ask (.change (made · (widen path))) with
        | .ok () => pure none
        | .error code => pure (if code = .isDirectory then none else some code)
    let change (d : Disk) : Except Errno Disk := do
      let new ← dated d follow time (widen path)
      .ok (if changes then new else d)
    match ← ask (.change change), unmade with
    | .ok (), _ => pure ()
    | .error _, some code => complain ["cannot touch ", shownName true path, ": ", code.wording]
    | .error code, none =>
      if !(given.has "no-create" && code = .notFound) then
        complain ["setting times of ", shownName true path, ": ", code.wording]

def touch (mixed : Bool) (arguments : List String) : Tool Unit := do
  let given := Given.ofArguments touchOptions mixed none arguments
  let changes ← changesModified given
  checkOptions given
  let time ← wantedTime given
  if given.operands.isEmpty then misused ["missing file operand"]
  given.operands.forM (touchPath given changes time)

end Tool

end BuildRunner.Shell
