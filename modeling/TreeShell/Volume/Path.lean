import TreeShell.Volume.Basic

/-! Paths and the inodes they name. A path is read part by part from the root or from a
directory; empty parts and `.` stay, `..` goes up and stays at the root. -/
namespace TreeShell

namespace Path

def isAbsolute (path : Text) : Bool := path.head? == some (chr '/')

/-- The directory part and the last name of a path, slashes at the end left out. -/
def parse (path : Text) : Text × Text :=
  let body := path.dropEndWhile (· == '/')
  if body.isEmpty then
    if isAbsolute path then ([chr '/'], []) else ([chr '.'], [])
  else match body.breakOnLast? (chr '/') with
    | none => ([chr '.'], body)
    | some ([], name) => ([chr '/'], name)
    | some (directory, name) => (directory, name)

/-- A part that leaves the directory at hand: it is empty or a single dot. -/
def staysPut (part : Text) : Bool := part.isEmpty || part == [chr '.']

def up : Text := [chr '.', chr '.']

def isValidName (name : Text) : Bool := !staysPut name && name != up

def append (directory below : Text) : Text :=
  directory.dropEndWhile (· == '/') ++ chr '/' :: below

end Path

namespace Volume

def follow (v : Volume) (path : Text) (current : InodeId) (part : Text) : Except Fault InodeId :=
  if Path.staysPut part then .ok current
  else if !v.isDirectory current then .error (.path .notDirectory path)
  else if part == Path.up then .ok ((v.parentOf? current).getD current)
  else match v.child? current part with
    | some found => .ok found
    | none => .error (.path .missing path)

/-- The directory that a relative path starts in: a file stands for its parent. -/
def startAt (v : Volume) (start : InodeId) : InodeId :=
  if v.isFile start then (v.parentOf? start).getD start else start

/-- The inode that a path names, read from `start` when it is relative. -/
def lookupFrom (v : Volume) (start : InodeId) (path : Text) : Except Fault InodeId := do
  if path.isEmpty then throw (.path .missing path)
  let origin := if Path.isAbsolute path then root else v.startAt start
  let found ← (path.splitOn (chr '/')).foldlM (v.follow path) origin
  if path.getLast? == some (chr '/') && v.isFile found then throw (.path .notDirectory path)
  return found

/-- The inode that a path names, read from the current directory when it is relative. -/
def lookup (v : Volume) (path : Text) : Except Fault InodeId := v.lookupFrom v.cwd path

/-- The inode that a path names, if there is one. -/
def resolve? (v : Volume) (path : Text) : Option InodeId := (v.lookup path).toOption

/-- The inode that a path names from a starting point, if there is one. -/
def resolveFrom? (v : Volume) (start : InodeId) (path : Text) : Option InodeId :=
  (v.lookupFrom start path).toOption

def readFile (v : Volume) (path : Text) : Except Fault Text := do
  match v.content? (← v.lookup path) with
  | some content => return content
  | none => throw (.path .isDirectory path)

/-- The directory and the name under which a path is to be created. -/
def placeFor (v : Volume) (path : Text) : Except Fault (InodeId × Text) := do
  let (directory, name) := Path.parse path
  if !Path.isValidName name then throw (.path .invalid path)
  let parent ← v.lookup directory
  if !v.isDirectory parent then throw (.path .notDirectory directory)
  return (parent, name)

/-- Makes a directory current; the empty path stands for the root. -/
def changeDirectory (v : Volume) (path : Text) : Except Fault Volume := do
  if path.isEmpty then return { v with cwd := root }
  let found ← v.lookup path
  if !v.isDirectory found then throw (.path .notDirectory path)
  return { v with cwd := found }

end Volume

end TreeShell
