import BuildRunner.Disk.Copy

/-!
# Making and listing entries

An `Entry` says what is to be at a path.  Making it also makes the missing directories above it.
`Disk.inventory` lists all entries below a directory in the order of their paths.
-/

namespace BuildRunner

/-- What is to be at a path; of a directory only the existence and the modification time. -/
structure Entry where
  path : String
  node : Node
deriving Inhabited, Repr

namespace DiskM

/-- Makes an entry at a path below `base`. -/
def makeEntry (base : String) (entry : Entry) : DiskM Unit := do
  let path := Path.join base entry.path
  let parent := Path.parent path
  match entry.node with
  | .dir .. => makeDirectories true path
  | node =>
    if !parent.isEmpty then makeDirectories true parent
    match node with
    | .file data _ _ => do
      change path fun d => d.store data path
      change path fun d => d.copyStatus node path
    | .link target => change path fun d => d.makeLink target path
    | _ => change path fun d => d.makeSpecial node path

/-- Sets the modification time that an entry asks for. -/
def dateEntry (base : String) (entry : Entry) : DiskM Unit := do
  let path := Path.join base entry.path
  if entry.node.modified?.isSome then change path fun d => d.copyStatus entry.node path

/-- Makes entries in their order, and then sets their modification times. -/
def makeEntries (base : String) (entries : List Entry) : DiskM Unit := do
  entries.forM (makeEntry base)
  entries.forM (dateEntry base)

end DiskM

/-- Puts an entry into a list that is in the order of paths. -/
def insertByPath (entry : Entry) : List Entry → List Entry
  | [] => [entry]
  | other :: rest =>
    if other.path < entry.path then other :: insertByPath entry rest else entry :: other :: rest

namespace Node

mutual

/-- An entry of a path and everything below it. -/
def inventory (path : String) : Node → List Entry
  | .dir es modified => ⟨path, .dir [] modified⟩ :: inventoryBelow path es
  | node => [⟨path, node⟩]

/-- The entries of the directory of a path and everything below them. -/
def inventoryBelow (path : String) : List (String × Node) → List Entry
  | [] => []
  | (name, node) :: rest => inventory (Path.join path name) node ++ inventoryBelow path rest

end

end Node

/-- All entries below a directory, in the order of their paths from there; none where there is no
directory. -/
def Disk.inventory (d : Disk) (path : String) : Option (List Entry) :=
  match d.status true path with
  | .ok (_, .dir es _) => some ((Node.inventoryBelow "" es).foldr insertByPath [])
  | _ => none

end BuildRunner
