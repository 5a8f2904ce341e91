import TreeShell.Volume.Path

/-! Creating and writing. An operation that fails and gives no volume back leaves the one that
it was given unchanged. Two give one back: the creation of a chain of directories keeps the part
that it has made before it meets a file, and the creation of a file keeps the file when its
content turns out to have no bytes. -/
namespace TreeShell.Volume

def add (v : Volume) (now : Instant) (directory : InodeId) (name : Text) (body : Body) :
    InodeId × Volume :=
  let (id, v) := v.insert ⟨name, some directory, now, now, body⟩
  (id, v.link now directory id name)

def create (v : Volume) (now : Instant) (path : Text) (body : Body) :
    Except Fault (InodeId × Volume) := do
  let (directory, name) ← v.placeFor path
  if (v.child? directory name).isSome then throw (.path .alreadyExists path)
  return v.add now directory name body

/-- Creates a file. It is in its place already when its size is asked for. -/
def createFile (v : Volume) (now : Instant) (path content : Text) : Except Fault InodeId × Volume :=
  match v.create now path (.file content) with
  | .error fault => (.error fault, v)
  | .ok (id, w) => (content.measure.map fun _ => id, w)

def createDirectory (v : Volume) (now : Instant) (path : Text) :
    Except Fault (InodeId × Volume) :=
  v.create now path (.directory [])

/-- Goes from a directory along the parts of `path`, creating the directories that miss. -/
def enter (now : Instant) (path : Text) : List Text → (current : InodeId) → Volume →
    Except Fault InodeId × Volume
  | [], current, v => (.ok current, v)
  | part :: parts, current, v =>
    if Path.staysPut part then enter now path parts current v
    else if part == Path.up then enter now path parts ((v.parentOf? current).getD current) v
    else match v.child? current part with
      | none =>
        let (made, v) := v.add now current part (.directory [])
        enter now path parts made v
      | some found =>
        if v.isDirectory found then enter now path parts found v
        else (.error (.path .notDirectory path), v)

def createDirectories (v : Volume) (now : Instant) (path : Text) : Except Fault InodeId × Volume :=
  enter now path (path.splitOn (chr '/')) (if Path.isAbsolute path then root else v.cwd) v

def setContent (v : Volume) (now : Instant) (id : InodeId) (content : Text) : Volume :=
  v.update id fun node => { node with modified := now, body := .file content }

/-- Writes a file: creates it if nothing is there, else replaces or extends its content. -/
def writeFile (v : Volume) (now : Instant) (path content : Text) (append : Bool) :
    Except Fault InodeId × Volume :=
  match v.resolve? path with
  | none => v.createFile now path content
  | some found =>
    match v.content? found with
    | none => (.error (.path .isDirectory path), v)
    | some old => (.ok found, v.setContent now found (if append then old ++ content else content))

/-- Marks an inode as modified, or creates an empty file. -/
def touchPath (v : Volume) (now : Instant) (path : Text) : Except Fault InodeId × Volume :=
  match v.resolve? path with
  | none => v.createFile now path []
  | some found => (.ok found, v.touch now found)

end TreeShell.Volume
