import BuildRunner.Disk.Lookup

/-!
# Disks

A disk is a tree together with everything that refers into it: the current directory, the
directories of the programs that run beside, and the open files.  When an entry is moved or removed
the references follow it.  Every operation of this module is one request to the system: it either
succeeds as a whole or is refused and changes nothing.
-/

namespace BuildRunner

open BuildRunner.Text (Bytes)

/-- An open file.  A file that was removed, and the null device, has no location. -/
structure OpenFile where
  location : Option Location
  offset : Nat
  /-- Whether every write goes to the end of the file. -/
  append : Bool
deriving DecidableEq, Repr, Inhabited

structure Disk where
  tree : Node
  cwd : Place
  /-- The current directories of other programs. -/
  away : List Place := []
  files : List OpenFile := []
deriving Inhabited

/-- A location after the entry at `source` has been moved to `target`. -/
def Location.moved (source target location : Location) : Location :=
  if source.isPrefixOf location then target ++ location.drop source.length else location

namespace Place

/-- A place after the empty directory at `location` has been removed. -/
def afterRemoval (location : Location) (place : Place) : Place :=
  if place.base = location ∧ location ≠ [] then
    { base := location.dropLast, lost := location.getLast?.toList ++ place.lost }
  else place

/-- A place after everything below the directory at `location` has been removed. -/
def afterClearing (location : Location) (place : Place) : Place :=
  if location.isPrefixOf place.base then
    { base := location, lost := place.base.drop location.length ++ place.lost }
  else place

end Place

namespace OpenFile

def afterRemoval (location : Location) (file : OpenFile) : OpenFile :=
  if file.location = some location then { file with location := none } else file

def afterClearing (location : Location) (file : OpenFile) : OpenFile :=
  match file.location with
  | some l =>
    if location.isPrefixOf l ∧ location.length < l.length then { file with location := none }
    else file
  | none => file

end OpenFile

namespace Disk

/-- The disk with new references. -/
def mapReferences (d : Disk) (place : Place → Place) (file : OpenFile → OpenFile) : Disk :=
  { d with cwd := place d.cwd, away := d.away.map place, files := d.files.map file }

def locate (d : Disk) (follow : Bool) (path : String) : Except Errno Spot :=
  BuildRunner.locate d.tree d.cwd follow path

def tip (d : Disk) (path : String) : Except Errno (Place × Tip) :=
  tipOf d.tree d.cwd path

/-- The node at a place; a removed directory is an empty one. -/
def nodeAt (d : Disk) (place : Place) : Node :=
  if place.lost.isEmpty then (d.tree.get? place.base).getD .empty else .empty

/-- The entry that a path leads to, with its location where it is in the tree. -/
def status (d : Disk) (follow : Bool) (path : String) : Except Errno (Place × Node) := do
  match ← d.locate follow path with
  | .directory place => .ok (place, d.nodeAt place)
  | .leaf parent name node => .ok (parent.down name, node)
  | .vacant .. => .error .notFound

/-! ### Questions about paths -/

/-- A path that holds NUL names nothing. -/
def hasNul (path : String) : Bool := path.toList.contains '\x00'

/-- The node that a path leads to, if any. -/
def node? (d : Disk) (follow : Bool) (path : String) : Option Node :=
  if hasNul path then none else (d.status follow path).toOption.map Prod.snd

/-- Whether a path leads to something, links at the end followed. -/
def pathExists (d : Disk) (path : String) : Bool := (d.node? true path).isSome

/-- Whether a path names an entry, be it a link that leads nowhere. -/
def entryExists (d : Disk) (path : String) : Bool := (d.node? false path).isSome

def isDirectory (d : Disk) (path : String) : Bool := (d.node? true path).any Node.isDir

def isFile (d : Disk) (path : String) : Bool := (d.node? true path).any Node.isFile

def isLink (d : Disk) (path : String) : Bool := (d.node? false path).any Node.isLink

/-- Whether a path leads to something that may be executed. -/
def isExecutable (d : Disk) (path : String) : Bool := (d.node? true path).any Node.isExecutable

/-- The names in a directory, in the order in which they are listed. -/
def listNames (d : Disk) (path : String) : Except Errno (List String) := do
  let (_, node) ← d.status true path
  match node with
  | .dir es _ => .ok (es.map Prod.fst)
  | _ => .error .notDirectory

/-- Whether two paths lead to one entry; refused where one of them leads nowhere. -/
def sameEntry (d : Disk) (a b : String) : Except Errno Bool := do
  let (p, _) ← d.status true a
  let (q, _) ← d.status true b
  .ok (p == q)

/-- The path of the current directory. -/
def currentPath (d : Disk) : Except Errno String :=
  d.cwd.path?.elim (.error .notFound) .ok

/-- The target of a link. -/
def readLink (d : Disk) (path : String) : Except Errno String := do
  let (_, node) ← d.status false path
  match node with
  | .link target => .ok target
  | _ => .error .invalidArgument

/-- The bytes that a path leads to. -/
def read (d : Disk) (path : String) : Except Errno Bytes := do
  let (_, node) ← d.status true path
  if node.isDir then .error .isDirectory else .ok node.data

/-! ### Changes -/

/-- The disk with a new entry in a directory, which must not have been removed. -/
def create (d : Disk) (parent : Place) (name : String) (node : Node) : Except Errno Disk :=
  if parent.lost.isEmpty then .ok { d with tree := d.tree.put parent.base name node }
  else .error .notFound

def changeDirectory (d : Disk) (path : String) : Except Errno Disk := do
  match ← d.locate true path with
  | .directory place => .ok { d with cwd := place }
  | .leaf .. => .error .notDirectory
  | .vacant .. => .error .notFound

/-- The entry of a name in a directory; names that are too long are refused. -/
def entryAt (d : Disk) (parent : Place) (name : String) : Except Errno (Option Node) :=
  if greatestName < name.utf8ByteSize then .error .nameTooLong
  else .ok ((parent.entries d.tree).lookup name)

def makeDirectory (d : Disk) (path : String) : Except Errno Disk := do
  match ← d.tip path with
  | (parent, .name name _) =>
    match ← d.entryAt parent name with
    | some _ => .error .fileExists
    | none => d.create parent name .empty
  | _ => .error .fileExists

/-- Makes a link or a pipe at a path that names nothing yet. -/
def makeSpecial (d : Disk) (node : Node) (path : String) : Except Errno Disk := do
  match ← d.tip path with
  | (parent, .name name slash) =>
    match ← d.entryAt parent name with
    | some _ => .error .fileExists
    | none => if slash then .error .notFound else d.create parent name node
  | _ => .error .fileExists

def makeLink (d : Disk) (target path : String) : Except Errno Disk :=
  if target.isEmpty then .error .notFound else d.makeSpecial (.link target) path

/-- Removes an entry that is not a directory. -/
def unlink (d : Disk) (path : String) : Except Errno Disk := do
  match ← d.tip path with
  | (parent, .name name slash) =>
    match ← d.entryAt parent name with
    | none => .error .notFound
    | some (.dir ..) => .error .isDirectory
    | some _ =>
      if slash then .error .notDirectory
      else
        let location := parent.base ++ [name]
        let d := { d with tree := d.tree.drop parent.base name }
        .ok (d.mapReferences id (OpenFile.afterRemoval location))
  | _ => .error .isDirectory

/-- Removes an empty directory. -/
def removeDirectory (d : Disk) (path : String) : Except Errno Disk := do
  match ← d.tip path with
  | (parent, .name name _) =>
    match ← d.entryAt parent name with
    | none => .error .notFound
    | some (.dir es _) =>
      if !es.isEmpty then .error .directoryNotEmpty
      else
        let location := parent.base ++ [name]
        let d := { d with tree := d.tree.drop parent.base name }
        .ok (d.mapReferences (Place.afterRemoval location) id)
    | some _ => .error .notDirectory
  | (_, .dot) => .error .invalidArgument
  | (_, .dotdot) => .error .directoryNotEmpty
  | (_, .root) => .error .busy

/-- Removes everything below a directory of the tree. -/
def clear (d : Disk) (location : Location) : Disk :=
  let d := { d with tree := d.tree.modify (Node.mapEntries fun _ => []) location }
  d.mapReferences (Place.afterClearing location) (OpenFile.afterClearing location)

/-- The disk after an entry has been moved to a place that is free. -/
def relocate (d : Disk) (source target : Location) (node : Node) : Disk :=
  let tree := d.tree.drop source.dropLast (source.getLast?.getD "")
  let tree := tree.put target.dropLast (target.getLast?.getD "") node
  let d := { d with tree }
  d.mapReferences (fun place => { place with base := Location.moved source target place.base })
    (fun file => { file with location := file.location.map (Location.moved source target) })

/-- Renames an entry, replacing a file by a file or an empty directory by a directory. -/
def rename (d : Disk) (source target : String) : Except Errno Disk := do
  let (p, sourceTip) ← d.tip source
  let (q, targetTip) ← d.tip target
  match sourceTip, targetTip with
  | .name a slashA, .name b slashB =>
    match ← d.entryAt p a with
    | none => .error .notFound
    | some node => do
      let there ← d.entryAt q b
      let old := p.base ++ [a]
      let new := q.base ++ [b]
      if !node.isDir && (slashA || slashB) then .error .notDirectory
      else if q.lost.isEmpty && old.isPrefixOf q.base then .error .invalidArgument
      else if p.lost.isEmpty && q.lost.isEmpty && new.isPrefixOf p.base then
        .error .directoryNotEmpty
      else if !q.lost.isEmpty then .error .notFound
      else if old = new then .ok d
      else
        match there with
        | none => .ok (d.relocate old new node)
        | some (.dir es _) =>
          if !node.isDir then .error .isDirectory
          else if !es.isEmpty then .error .directoryNotEmpty
          else
            let d := { d with tree := d.tree.drop q.base b }
            .ok ((d.mapReferences (Place.afterRemoval new) id).relocate old new node)
        | some _ =>
          if node.isDir then .error .notDirectory
          else
            let d := { d with tree := d.tree.drop q.base b }
            .ok ((d.mapReferences id (OpenFile.afterRemoval new)).relocate old new node)
  | _, _ => .error .busy

/-- Opens a file for writing from its start, or from its end, and makes it if there is none.  The
answer is the index of the open file. -/
def openFile (d : Disk) (append : Bool) (path : String) : Except Errno (Disk × Nat) := do
  let (parent, name) ← writable d.tree d.cwd path
  let location := parent.base ++ [name]
  let withFile (d : Disk) (location : Option Location) : Disk × Nat :=
    ({ d with files := d.files ++ [⟨location, 0, append⟩] }, d.files.length)
  match (parent.entries d.tree).lookup name with
  | none => do
    let d ← d.create parent name (.file [] false none)
    .ok (withFile d (some location))
  | some (.file ..) =>
    if append then .ok (withFile d (some location))
    else
      let d := { d with tree := d.tree.modify (Node.withData []) location }
      .ok (withFile d (some location))
  | some _ => .ok (withFile d none)

/-- Opens a file for reading. -/
def openReading (d : Disk) (path : String) : Except Errno (Disk × Nat) := do
  let (place, node) ← d.status true path
  let location := if node.isFile && place.lost.isEmpty then some place.base else none
  .ok ({ d with files := d.files ++ [⟨location, 0, false⟩] }, d.files.length)

/-- Opens a file for reading and writing from its start, and makes it if there is none. -/
def openBoth (d : Disk) (path : String) : Except Errno (Disk × Nat) := do
  let (d, index) ← d.openFile true path
  .ok ({ d with files := d.files.modify index fun file => { file with append := false } }, index)

/-- Reads the next bytes of an open file. -/
def readOpen (d : Disk) (index count : Nat) : Bytes × Disk :=
  match d.files[index]? with
  | some { location := some location, offset, append } =>
    let data := (d.tree.get? location).elim [] Node.data
    let bytes := (data.drop offset).take count
    (bytes, { d with files := d.files.set index ⟨some location, offset + bytes.length, append⟩ })
  | _ => ([], d)

/-- The bytes of a file after `new` has been written at an offset; a gap is filled with zeros. -/
def overwrite (old : Bytes) (offset : Nat) (new : Bytes) : Bytes :=
  old.take offset ++ List.replicate (offset - old.length) 0 ++ new ++ old.drop (offset + new.length)

/-- Writes to an open file. -/
def write (d : Disk) (index : Nat) (bytes : Bytes) : Disk :=
  match d.files[index]? with
  | none => d
  | some file =>
    match file.location with
    | none => d
    | some location =>
      let old := ((d.tree.get? location).elim [] Node.data)
      let offset := if file.append then old.length else file.offset
      { d with
        tree := d.tree.modify (Node.withData (overwrite old offset bytes)) location
        files := d.files.set index { file with offset := offset + bytes.length } }

/-- Replaces the bytes of the file that a path opens for writing. -/
def store (d : Disk) (data : Bytes) (path : String) : Except Errno Disk := do
  let (parent, name) ← writable d.tree d.cwd path
  match (parent.entries d.tree).lookup name with
  | none => d.create parent name (.file data false none)
  | some _ => .ok { d with tree := d.tree.modify (Node.withData data) (parent.base ++ [name]) }

/-- Gives the entry that a path leads to the mode and the modification time of another node. -/
def copyStatus (d : Disk) (source : Node) (path : String) : Except Errno Disk := do
  let (place, _) ← d.status true path
  if place.lost.isEmpty then
    .ok { d with tree := d.tree.modify (Node.withStatus source) place.base }
  else .ok d

/-- The disk as the program at index `i` of `away` sees it; the current directory takes its
place there, so that doing it twice changes nothing. -/
def exchange (d : Disk) (i : Nat) : Disk :=
  match d.away[i]? with
  | none => d
  | some place => { d with cwd := place, away := d.away.set i d.cwd }

end Disk

end BuildRunner
