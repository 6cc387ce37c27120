import BuildRunner.Text.Utf8

/-!
# Trees of entries

A disk is a tree: directories hold named entries, and an entry is a file, a directory, a symbolic
link, a named pipe or the null device.  A `Location` names an entry by the directories on the way to
it, without passing through a link.  All changes of a tree go through `Node.modify`, which rebuilds
the entry at one location and leaves everything else alone.
-/

namespace BuildRunner

open BuildRunner.Text (Bytes)

inductive Node
  /-- A modification time is kept where it was set or copied. -/
  | file (data : Bytes) (executable : Bool) (modified : Option Int)
  | dir (entries : List (String × Node)) (modified : Option Int)
  | link (target : String)
  | pipe
  | null
deriving Inhabited, Repr

/-- The names on the way from the root of the disk. -/
abbrev Location := List String

namespace Node

abbrev Entries := List (String × Node)

def empty : Node := .dir [] none

def entries : Node → Entries
  | .dir es _ => es
  | _ => []

def isDir : Node → Bool
  | .dir .. => true
  | _ => false

def isFile : Node → Bool
  | .file .. => true
  | _ => false

def isLink : Node → Bool
  | .link _ => true
  | _ => false

/-- The entry at a location below a node. -/
def get? (node : Node) : Location → Option Node
  | [] => some node
  | name :: rest => (node.entries.lookup name).bind (·.get? rest)

/-- The entries with `f` applied to those of a name. -/
def mapNamed (name : String) (f : Node → Node) (es : Entries) : Entries :=
  es.map fun (key, node) => (key, if key = name then f node else node)

/-- The tree with the entry at a location replaced by what `f` makes of it. -/
def modify (f : Node → Node) : Location → Node → Node
  | [], node => f node
  | name :: rest, .dir es modified => .dir (mapNamed name (modify f rest) es) modified
  | _ :: _, node => node

/-- The entries with one more, or with a new node under a name that is taken. -/
def putEntry (name : String) (node : Node) (es : Entries) : Entries :=
  if (es.lookup name).isSome then mapNamed name (fun _ => node) es else es ++ [(name, node)]

/-- The entries without those of a name. -/
def dropEntry (name : String) (es : Entries) : Entries := es.filter fun e => e.1 != name

def mapEntries (f : Entries → Entries) : Node → Node
  | .dir es modified => .dir (f es) modified
  | node => node

/-- The tree with an entry put into the directory at a location. -/
def put (tree : Node) (parent : Location) (name : String) (node : Node) : Node :=
  tree.modify (mapEntries (putEntry name node)) parent

/-- The tree with an entry taken out of the directory at a location. -/
def drop (tree : Node) (parent : Location) (name : String) : Node :=
  tree.modify (mapEntries (dropEntry name)) parent

/-- The bytes of a file. -/
def data : Node → Bytes
  | .file data _ _ => data
  | _ => []

/-- A file with other bytes; its modification time is then the present. -/
def withData (data : Bytes) : Node → Node
  | .file _ executable _ => .file data executable none
  | node => node

def isExecutable : Node → Bool
  | .file _ executable _ => executable
  | .dir .. => true
  | _ => false

def modified? : Node → Option Int
  | .file _ _ modified => modified
  | .dir _ modified => modified
  | _ => none

/-- The node with another modification time; none stands for the present. -/
def dated (modified : Option Int) : Node → Node
  | .file data executable _ => .file data executable modified
  | .dir es _ => .dir es modified
  | node => node

/-- The node with the mode and the modification time of another one. -/
def withStatus (source : Node) : Node → Node
  | .file data executable _ =>
    .file data (if source.isFile then source.isExecutable else executable) source.modified?
  | .dir es _ => .dir es source.modified?
  | node => node

end Node

end BuildRunner
