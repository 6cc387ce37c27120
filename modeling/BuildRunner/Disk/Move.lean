import BuildRunner.Disk.Copy

/-!
# Removing and moving trees

A tree is removed by emptying its directory and then removing the directory by its path.  An entry
is moved by renaming it; where that is refused it is copied and then removed.
-/

namespace BuildRunner.DiskM

/-- Empties a directory and removes it. -/
def removeTree (path : String) : DiskM Unit := do
  let (place, node) ← ask path fun d => d.status false path
  if !node.isDir then throw (.system .notDirectory (some path) none)
  if place.lost.isEmpty then modify fun d => d.clear place.base
  change path fun d => d.removeDirectory path

/-- Whether the absolute form of a path lies at or below that of another. -/
def liesWithin (source target : String) : DiskM Bool := do
  let closed (path : String) : List Char :=
    if path.toList.getLast? == some '/' then path.toList else path.toList ++ ['/']
  let source ← absolutePath source
  let target ← absolutePath target
  pure ((closed source).isPrefixOf (closed target))

/-- Copies an entry to a path that could not be reached by renaming, and removes it. -/
def moveByCopy (source target landing : String) : DiskM Unit := do
  if (← get).isLink source then
    let linked ← ask source fun d => d.readLink source
    change₂ linked landing fun d => d.makeLink linked landing
    change source fun d => d.unlink source
  else if (← get).isDirectory source then
    if ← liesWithin source target then throw (.intoItself source target)
    copyTree false source landing
    removeTree source
  else
    copyFile (.ofPath source) landing
    change source fun d => d.unlink source

/-- Renames an entry, or moves it by copying where it cannot be renamed. -/
def moveTo (source target landing : String) : DiskM Unit := do
  try change₂ source landing fun d => d.rename source landing
  catch failure =>
    if failure.isSystem then moveByCopy source target landing else throw failure

/-- Moves an entry to a path, or into the directory there.  An entry that leads to that directory
itself is renamed. -/
def move (source target : String) : DiskM Unit := do
  if (← get).isDirectory target then
    if ← sameEntry source target then
      change₂ source target fun d => d.rename source target
    else
      let landing := Path.join target (Path.lastSegment source)
      if (← get).pathExists landing then throw (.occupied landing)
      moveTo source target landing
  else moveTo source target target

end BuildRunner.DiskM
