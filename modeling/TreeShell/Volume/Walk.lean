import TreeShell.Volume.Path

/-! Walking through a tree: every inode below a directory, each directory before its
contents, children in order. The depth of a tree is bounded by the size of the table. -/
namespace TreeShell.Volume

/-- The inodes below a directory, down to `bound` levels, under paths that begin with `lead`. -/
def walkWithin (v : Volume) : (bound : Nat) → (lead : Text) → InodeId → List (Text × InodeId)
  | 0, _, _ => []
  | bound + 1, lead, id =>
    (v.entries id).flatMap fun (_, child) =>
      let name := v.nameOf child
      let path := if lead.isEmpty then name else lead ++ chr '/' :: name
      (path, child) :: v.walkWithin bound path child

def walk (v : Volume) (id : InodeId) : List (Text × InodeId) :=
  v.walkWithin v.slots.size [] id

/-- An inode and everything below it, down to `bound` levels. -/
def subtreeWithin (v : Volume) : (bound : Nat) → InodeId → List InodeId
  | 0, _ => []
  | bound + 1, id => id :: (v.entries id).flatMap fun (_, child) => v.subtreeWithin bound child

def subtree (v : Volume) (id : InodeId) : List InodeId := v.subtreeWithin v.slots.size id

/-- The files at and below a path, each written with the path as it was given. -/
def filesBelow (v : Volume) (path : Text) : Except Fault (List Text) := do
  let found ← v.lookup path
  if v.isFile found then return [path]
  return (v.walk found).filterMap fun (below, id) =>
    if v.isFile id then some (Path.append path below) else none

/-- The whole tree as absolute paths, with the content of every file. -/
def listing (v : Volume) : List (Text × Option Text) :=
  (v.walk root).map fun (path, id) => (chr '/' :: path, v.content? id)

end TreeShell.Volume
