import BuildRunner.Shell.Tool.Options

/-!
# The name of the current directory

`pwd` writes the path of the current directory as the system knows it, or as the environment names
it.
-/

namespace BuildRunner.Shell

/-- Whether a path names the current directory without detours. -/
def namesHere (d : Disk) (path : String) : Bool :=
  let segments := Path.segments path.toList
  Path.isAbsolute path && !segments.contains ['.'] && !segments.contains ['.', '.'] &&
    (d.sameEntry (widen path) ".").toOption.getD false

namespace Tool

def directoryOptions : List ToolOption :=
  [{ key := "logical", letter := 'L', name := "logical" },
    { key := "physical", letter := 'P', name := "physical" }] ++ commonOptions

def printDirectory (mixed : Bool) (environment : List (String × String))
    (arguments : List String) : Tool Unit := do
  let given := Given.ofArguments directoryOptions mixed none arguments
  checkOptions given
  if !given.operands.isEmpty then remark ["ignoring non-option arguments\n"]
  let d ← ask .disk
  let isLogical := (given.options.getLast?.map Prod.fst).elim (!mixed) (· == "logical")
  match if isLogical then (environment.lookup "PWD").filter (namesHere d) else none with
  | some path => out (path ++ "\n")
  | none =>
    match d.currentPath with
    | .ok path => out (narrow path ++ "\n")
    | .error _ =>
      fail ["couldn't find directory entry in ", quotedText "..", " with matching i-node"]

end Tool

end BuildRunner.Shell
