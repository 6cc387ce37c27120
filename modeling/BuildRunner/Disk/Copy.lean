import BuildRunner.Disk.Request

/-!
# Copying

A file is copied with its mode and its modification time.  A directory is copied entry by entry:
its entries are listed before the copy of the directory is made, links are copied as links, and a
fault with one entry does not keep the others from being copied.
-/

namespace BuildRunner.DiskM

open BuildRunner.Text (quoted)

/-- The file that is copied, and how messages show it. -/
structure CopySource where
  path : String
  shown : String

def CopySource.ofPath (path : String) : CopySource := ⟨path, quoted path⟩

/-- An entry of a listed directory. -/
def CopySource.ofEntry (directory name : String) : CopySource :=
  ⟨Path.join directory name, "<DirEntry " ++ quoted name ++ ">"⟩

/-- Whether two paths lead to one entry; a path that leads nowhere is no such entry. -/
def sameEntry (a b : String) : DiskM Bool := do
  if Disk.hasNul a || Disk.hasNul b then throw .nullByte
  match (← get).sameEntry a b with
  | .ok same => pure same
  | .error _ => pure false

/-- Refuses to read or write a named pipe. -/
def refusePipe (path : String) : DiskM Unit := do
  match (← get).node? true path with
  | some .pipe => throw (.namedPipe path)
  | _ => pure ()

/-- Copies the bytes of a file. -/
def copyBytes (source : CopySource) (target : String) : DiskM Unit := do
  if ← sameEntry source.path target then throw (.sameFile source.shown target)
  refusePipe source.path
  refusePipe target
  let data ← ask source.path fun d => d.read source.path
  try change target fun d => d.store data target
  catch
    | failure@(.system .isDirectory _ _) =>
      if (← get).pathExists target then throw failure else throw (.missingDirectory target)
    | failure => throw failure

/-- Copies the mode and the modification time of what a path leads to.  A refusal to set them names
no path. -/
def copyStatus (source target : String) : DiskM Unit := do
  let (_, node) ← ask source fun d => d.status true source
  if Disk.hasNul target then throw .nullByte
  match (← get).copyStatus node target with
  | .ok d => set d
  | .error code => throw (.system code none none)

/-- Copies a file to a path, or into the directory there. -/
def copyFile (source : CopySource) (target : String) : DiskM Unit := do
  let target :=
    if (← get).isDirectory target then Path.join target (Path.name source.path) else target
  copyBytes source target
  copyStatus source.path target

/-- What a fault with an entry adds to the list of faults. -/
def faultsOf (source target : String) : Failure → List CopyFault
  | .copyFaults faults => faults
  | failure@(.sameFile ..) => failure.message.toList.map .letter
  | failure => [.entry source target failure.message]

/-- Runs an action and gives the faults that its failure adds. -/
def collect (source target : String) (action : DiskM Unit) : DiskM (List CopyFault) := do
  try
    action
    pure []
  catch failure =>
    if failure.isSystem then pure (faultsOf source target failure) else throw failure

/-- The number of directories, one in the other, that a copy may go down before the calls are nested
too deep. -/
def nestingLimit : Nat := 495

/-- Copies a directory.  With `existOk` the copy may be there already.  A copy into the inside of its
source goes on until its paths are too long or the levels are used up; the latter is no fault of an
entry and ends the whole copy. -/
def copyTreeFrom : (levels : Nat) → (existOk : Bool) → (source target : String) → DiskM Unit
  | 0, _, _, _ => throw (.outOfRange .nesting)
  | levels + 1, existOk, source, target => do
    let (_, node) ← ask source fun d => d.status true source
    if !node.isDir then throw (.system .notDirectory (some source) none)
    makeDirectories existOk target
    let faults ← node.entries.foldlM (fun faults (name, entry) => do
      let origin := Path.join source name
      let copy := Path.join target name
      let more ← collect origin copy do
        match entry with
        | .link _ => do
          let linked ← ask origin fun d => d.readLink origin
          change₂ linked copy fun d => d.makeLink linked copy
        | .dir .. => copyTreeFrom levels existOk origin copy
        | _ => copyFile (.ofEntry source name) copy
      pure (faults ++ more)) []
    let more ← collect source target (copyStatus source target)
    let faults := faults ++ more
    if !faults.isEmpty then throw (.copyFaults faults)

def copyTree (existOk : Bool) (source target : String) : DiskM Unit :=
  copyTreeFrom nestingLimit existOk source target

end BuildRunner.DiskM
