import TreeShell.Volume.Path
import TreeShell.Volume.Walk

/-! Snapshots: a tree written down entry by entry, and read back. Reading builds a volume
of its own, so that a snapshot that cannot be read changes nothing. -/
namespace TreeShell

/-- An entry of a snapshot. A field that was not written is `none`. -/
structure Snapshot where
  kind : Option Text
  name : Option Text
  created : Option Text
  modified : Option Text
  content : Option Text
  children : List Snapshot

namespace Snapshot

def fileKind : Text := "file"

def directoryKind : Text := "directory"

/-- Reads an optional time; an empty text counts as not written. -/
def time? (written : Option Text) (otherwise : Instant) : Except Fault Instant :=
  match written with
  | none | some [] => .ok otherwise
  | some text =>
    match Instant.parse text with
    | .ok instant => .ok instant
    | .error detail => .error (.snapshotEntry detail)

def restoreTimes (v : Volume) (id : InodeId) (created modified : Option Text) :
    Except Fault Volume := do
  match v.get? id with
  | some node =>
    let created ← time? created node.created
    let modified ← time? modified node.modified
    return v.update id fun node => { node with created := created, modified := modified }
  | none => return v

def required (field : Text) (value : Option Text) : Except Fault Text :=
  match value with
  | some value => .ok value
  | none => .error (.snapshotEntry (chr '\'' :: field ++ [chr '\'']))

mutual

/-- Enters a snapshot into a directory. -/
def restore (now : Instant) (v : Volume) (directory : InodeId) : Snapshot → Except Fault Volume
  | ⟨kind, name, created, modified, content, children⟩ => do
    let name ← required "name" name
    if (v.child? directory name).isSome then
      throw (.path .alreadyExists (Path.append (v.pathOf directory) name))
    let kind ← required "type" kind
    if kind == fileKind then
      let (id, v) := v.insert ⟨name, some directory, now, now, .file (content.getD [])⟩
      restoreTimes (v.attach directory id name) id created modified
    else
      let (id, v) := v.insert ⟨name, some directory, now, now, .directory []⟩
      let v ← restoreAll now v id children
      restoreTimes (v.attach directory id name) id created modified

def restoreAll (now : Instant) (v : Volume) (directory : InodeId) :
    List Snapshot → Except Fault Volume
  | [] => .ok v
  | entry :: entries => do restoreAll now (← restore now v directory entry) directory entries

end

/-- The volume that a snapshot describes; its root becomes current. -/
def toVolume (snapshot : Snapshot) (now : Instant) : Except Fault Volume := do
  if snapshot.kind != some directoryKind then throw .snapshotRoot
  let v ← restoreAll now (Volume.fresh now) Volume.root snapshot.children
  restoreTimes v Volume.root snapshot.created snapshot.modified

/-- Writes down an inode and what is below it, down to `bound` levels. -/
def ofWithin (v : Volume) : (bound : Nat) → InodeId → Snapshot
  | 0, _ => ⟨none, none, none, none, none, []⟩
  | bound + 1, id =>
    match v.get? id with
    | none => ⟨none, none, none, none, none, []⟩
    | some node => {
        kind := some (if node.isDirectory then directoryKind else fileKind)
        name := some node.name
        created := some node.created.render
        modified := some node.modified.render
        content := node.content?
        children := node.entries.map fun (_, child) => ofWithin v bound child }

def ofInode (v : Volume) (id : InodeId) : Snapshot := ofWithin v v.slots.size id

def ofVolume (v : Volume) : Snapshot := ofInode v Volume.root

end Snapshot

end TreeShell
