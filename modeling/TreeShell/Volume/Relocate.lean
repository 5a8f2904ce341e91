import TreeShell.Volume.Create
import TreeShell.Volume.Walk

/-! Removing, moving and copying subtrees. -/
namespace TreeShell.Volume

/-- Removes an inode with everything below it. The current directory never dangles: if it
goes too, the parent of the removed inode becomes current. -/
def remove (v : Volume) (now : Instant) (path : Text) (recursive : Bool) : Except Fault Volume := do
  let found ← v.lookup path
  if found == root then throw .rootRemoval
  if !(v.entries found).isEmpty && !recursive then throw (.path .notEmpty path)
  let doomed := v.subtree found
  let cwd := if v.isAncestor found v.cwd then (v.parentOf? found).getD root else v.cwd
  return { (v.unlink now found).discard doomed with cwd := cwd }

/-- Where a moved or copied inode goes: into an existing directory under its own name, or
to the place that the path names. -/
def destination (v : Volume) (source : InodeId) (target : Text) : Except Fault (InodeId × Text) :=
  match v.resolve? target with
  | some found => if v.isDirectory found then .ok (found, v.nameOf source) else v.placeFor target
  | none => v.placeFor target

/-- Moves an inode, replacing a file that stands at the destination. -/
def move (v : Volume) (now : Instant) (source target : Text) : Except Fault (InodeId × Volume) := do
  let node ← v.lookup source
  if node == root then throw .rootMove
  let (directory, name) ← v.destination node target
  if v.isAncestor node directory then throw (.moveIntoItself source target)
  let cleared ← match v.child? directory name with
    | some existing =>
      if existing == node then pure v
      else if v.isDirectory existing then throw (.path .isDirectory target)
      else if v.isDirectory node then throw (.path .notDirectory target)
      else pure ((v.unlink now existing).discard (v.subtree existing))
    | none => pure v
  return (node, (cleared.unlink now node).link now directory node name)

/-- Copies an inode and what is below it, down to `bound` levels, into a directory. -/
def copyInto (now : Instant) : (bound : Nat) → Volume → (source directory : InodeId) → Text →
    InodeId × Volume
  | 0, v, _, directory, name => v.add now directory name (.directory [])
  | bound + 1, v, source, directory, name =>
    match v.content? source with
    | some content => v.add now directory name (.file content)
    | none =>
      let (made, w) := v.add now directory name (.directory [])
      (made, (v.entries source).foldl
        (fun w (_, child) => (copyInto now bound w child made (v.nameOf child)).2) w)

/-- Copies an inode. A file replaces the content of a file that stands at the destination. -/
def copy (v : Volume) (now : Instant) (source target : Text) (recursive : Bool) :
    Except Fault (InodeId × Volume) := do
  let node ← v.lookup source
  if v.isDirectory node && !recursive then throw (.path .isDirectory source)
  let (directory, name) ← v.destination node target
  if v.isDirectory node && v.isAncestor node directory then throw (.copyIntoItself source target)
  match v.child? directory name with
  | some existing =>
    match v.content? node, v.content? existing with
    | some content, some _ => return (existing, v.setContent now existing content)
    | _, _ => throw (.path .alreadyExists target)
  | none => return copyInto now v.slots.size v node directory name

end TreeShell.Volume
