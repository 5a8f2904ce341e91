import TreeShell.Fault
import TreeShell.Instant
import TreeShell.Text.Utf8

/-! The file tree. A volume is a table of inodes: a directory lists its children by name
and number, and every inode knows the number of its parent. Numbers are given out in
order and never used again, so the next number is the size of the table. -/
namespace TreeShell

abbrev InodeId := Nat

/-- What an inode holds: the content of a file, or the children of a directory in the
order in which they were entered. -/
inductive Body where
  | file (content : Text)
  | directory (entries : List (Text × InodeId))

/-- A file or a directory. Only the root has no parent. -/
structure Inode where
  name : Text
  parent : Option InodeId
  created : Instant
  modified : Instant
  body : Body

namespace Inode

/-- The children of a directory; a file has none. -/
def entries (node : Inode) : List (Text × InodeId) :=
  match node.body with
  | .directory entries => entries
  | .file _ => []

def isDirectory (node : Inode) : Bool :=
  match node.body with
  | .directory _ => true
  | .file _ => false

def content? (node : Inode) : Option Text :=
  match node.body with
  | .file content => some content
  | .directory _ => none

/-- The size of a listing: the bytes of a file, the number of children of a directory. -/
def size (node : Inode) : Except Fault Nat :=
  match node.body with
  | .file content => content.measure
  | .directory entries => .ok entries.length

end Inode

/-- A table of inodes and the number of the current directory. An empty slot belongs to
an inode that has been removed. -/
structure Volume where
  slots : Array (Option Inode)
  cwd : InodeId

namespace Volume

/-- The number of the root. -/
def root : InodeId := 0

def fresh (now : Instant) : Volume where
  slots := #[some ⟨[], none, now, now, .directory []⟩]
  cwd := root

def get? (v : Volume) (id : InodeId) : Option Inode := (v.slots[id]?).join

def update (v : Volume) (id : InodeId) (change : Inode → Inode) : Volume :=
  { v with slots := v.slots.modify id (Option.map change) }

def insert (v : Volume) (node : Inode) : InodeId × Volume :=
  (v.slots.size, { v with slots := v.slots.push (some node) })

/-- Empties the slots of some numbers. -/
def discard (v : Volume) (ids : List InodeId) : Volume :=
  { v with slots := ids.foldl (fun slots id => slots.setIfInBounds id none) v.slots }

def isDirectory (v : Volume) (id : InodeId) : Bool :=
  match v.get? id with
  | some node => node.isDirectory
  | none => false

def content? (v : Volume) (id : InodeId) : Option Text := v.get? id >>= Inode.content?

def isFile (v : Volume) (id : InodeId) : Bool := (v.content? id).isSome

def entries (v : Volume) (id : InodeId) : List (Text × InodeId) :=
  match v.get? id with
  | some node => node.entries
  | none => []

def nameOf (v : Volume) (id : InodeId) : Text :=
  match v.get? id with
  | some node => node.name
  | none => []

def parentOf? (v : Volume) (id : InodeId) : Option InodeId := v.get? id >>= Inode.parent

def child? (v : Volume) (directory : InodeId) (name : Text) : Option InodeId :=
  (v.entries directory).lookup name

def touch (v : Volume) (now : Instant) (id : InodeId) : Volume :=
  v.update id fun node => { node with modified := now }

def attach (v : Volume) (directory id : InodeId) (name : Text) : Volume :=
  let v := v.update directory fun node => { node with body := .directory (node.entries ++ [(name, id)]) }
  v.update id fun node => { node with name := name, parent := some directory }

/-- Enters an inode as the last child of a directory, which is thereby modified. -/
def link (v : Volume) (now : Instant) (directory id : InodeId) (name : Text) : Volume :=
  (v.attach directory id name).touch now directory

/-- Takes an inode out of its parent, which is thereby modified. -/
def unlink (v : Volume) (now : Instant) (id : InodeId) : Volume :=
  match v.get? id with
  | some ⟨name, some parent, _, _, _⟩ =>
    let v := v.update parent fun node =>
      { node with modified := now, body := .directory (node.entries.filter (·.1 != name)) }
    v.update id fun node => { node with parent := none }
  | _ => v

/-- The names from an inode up to the root, at most `bound` of them. -/
def namesUp (v : Volume) : (bound : Nat) → InodeId → List Text
  | 0, _ => []
  | bound + 1, id =>
    match v.get? id with
    | some ⟨name, some parent, _, _, _⟩ => name :: v.namesUp bound parent
    | _ => []

/-- The absolute path of an inode. A chain of parents is no longer than the table. -/
def pathOf (v : Volume) (id : InodeId) : Text :=
  chr '/' :: Text.join [chr '/'] (v.namesUp v.slots.size id).reverse

def currentPath (v : Volume) : Text := v.pathOf v.cwd

/-- Whether `ancestor` is met on the way of at most `bound` steps from an inode to the root. -/
def isAbove (v : Volume) (ancestor : InodeId) : (bound : Nat) → InodeId → Bool
  | 0, _ => false
  | bound + 1, id =>
    id == ancestor || match v.parentOf? id with
      | some parent => v.isAbove ancestor bound parent
      | none => false

def isAncestor (v : Volume) (ancestor id : InodeId) : Bool :=
  v.isAbove ancestor v.slots.size id

end Volume

end TreeShell
