import TreeShell.Volume.Relocate
import TreeShell.Volume.Snapshot

/-! The operations on a volume as data, and what they answer. A history of a volume is a
list of operations; each one gives a reply or a fault, and the volume after it. -/
namespace TreeShell.Volume

inductive Operation where
  | createFile (path content : Text)
  | createDirectory (path : Text)
  | createDirectories (path : Text)
  | writeFile (path content : Text) (append : Bool)
  | touch (path : Text)
  | move (source target : Text)
  | copy (source target : Text) (recursive : Bool)
  | remove (path : Text) (recursive : Bool)
  | changeDirectory (path : Text)
  | restore (snapshot : Snapshot)
  | lookup (path : Text)
  | resolve (path : Text) (start : Option Text)
  | read (path : Text)
  | walk (path lead : Text)
  | children (path : Text)
  | isAncestor (ancestor path : Text)
  | snapshot (path : Option Text)
  | reload

inductive Reply where
  | nothing
  | inode (id : InodeId)
  | text (t : Text)
  | paths (found : List (Text × Bool))
  | names (found : List Text)
  | truth (answer : Bool)
  | snapshot (written : Snapshot)

/-- A change that either gives an inode and a volume or leaves the volume alone. -/
def settle (v : Volume) : Except Fault (InodeId × Volume) → Except Fault Reply × Volume
  | .ok (id, w) => (.ok (.inode id), w)
  | .error fault => (.error fault, v)

/-- A change without an answer that leaves the volume alone when it fails. -/
def settleSilently (v : Volume) : Except Fault Volume → Except Fault Reply × Volume
  | .ok w => (.ok .nothing, w)
  | .error fault => (.error fault, v)

def ask (v : Volume) (answer : Except Fault Reply) : Except Fault Reply × Volume := (answer, v)

/-- A change that may have been made in part when it fails. -/
def settlePartly : Except Fault InodeId × Volume → Except Fault Reply × Volume
  | (result, w) => (result.map .inode, w)

def perform (now : Instant) (v : Volume) : Operation → Except Fault Reply × Volume
  | .createFile path content => settlePartly (v.createFile now path content)
  | .createDirectory path => v.settle (v.createDirectory now path)
  | .createDirectories path => settlePartly (v.createDirectories now path)
  | .writeFile path content append => settlePartly (v.writeFile now path content append)
  | .touch path => settlePartly (v.touchPath now path)
  | .move source target => v.settle (v.move now source target)
  | .copy source target recursive => v.settle (v.copy now source target recursive)
  | .remove path recursive => v.settleSilently (v.remove now path recursive)
  | .changeDirectory path => v.settleSilently (v.changeDirectory path)
  | .restore written => v.settleSilently (written.toVolume now)
  | .lookup path => v.ask ((v.lookup path).map .inode)
  | .resolve path start => v.ask do
    let origin ← match start with
      | some start => v.lookup start
      | none => pure v.cwd
    match v.resolveFrom? origin path with
    | some id => return .inode id
    | none => return .nothing
  | .read path => v.ask ((v.readFile path).map .text)
  | .walk path lead => v.ask do
    let found := v.walkWithin v.slots.size lead (← v.lookup path)
    return .paths (found.map fun (path, id) => (path, v.isFile id))
  | .children path => v.ask do
    return .names ((v.entries (← v.lookup path)).map fun (_, child) => v.nameOf child)
  | .isAncestor ancestor path => v.ask do
    return .truth (v.isAncestor (← v.lookup ancestor) (← v.lookup path))
  | .snapshot path => v.ask do
    match path with
    | some path => return .snapshot (Snapshot.ofInode v (← v.lookup path))
    | none => return .snapshot (Snapshot.ofVolume v)
  | .reload =>
    match (Snapshot.ofVolume v).toVolume now with
    | .ok w => (.ok (.snapshot (Snapshot.ofVolume w)), w)
    | .error fault => (.error fault, v)

end TreeShell.Volume
