import TreeShell.Fault
import TreeShell.Text.Quoted
import TreeShell.Text.Utf8

/-! The host: the directories and files outside of the volume that a session may reach.
Paths are read part by part, as they stand, from the root of the host when they begin with a
slash and from its working directory otherwise: `..` goes up only from a directory that is
there, and leads from the root to the root. Any text may be a name here, as on a host that takes
the names it is given; only contents have to have bytes. -/
namespace TreeShell

/-- What a member of an archive is. Members that are neither files nor directories are
never unpacked. -/
inductive MemberKind where
  | file (bytes : List UInt8)
  | directory
  | other

structure Member where
  name : Text
  kind : MemberKind

/-- What stands at a place of the host. -/
inductive HostNode where
  | directory
  | file (bytes : List UInt8)
  | archive (members : List Member)

/-- A path on the host: the slashes in front, and the parts without empty ones and dots. -/
structure HostPath where
  lead : Text
  parts : List Text
  deriving DecidableEq

namespace HostPath

/-- Reads a path. Two slashes in front are kept, more of them count as one. -/
def ofText (t : Text) : HostPath :=
  let slashes := t.takeWhile (· == chr '/')
  { lead := if slashes.length ≤ 2 then slashes else [chr '/']
    parts := (t.splitOn (chr '/')).filter fun part => !part.isEmpty && part != [chr '.'] }

def render (p : HostPath) : Text :=
  if p.lead.isEmpty && p.parts.isEmpty then [chr '.'] else p.lead ++ Text.join [chr '/'] p.parts

def name (p : HostPath) : Text := p.parts.getLast?.getD []

def parent (p : HostPath) : HostPath := { p with parts := p.parts.dropLast }

/-- A path that is read from another one, unless it begins with a slash. -/
def join (p : HostPath) (below : Text) : HostPath :=
  let b := ofText below
  if b.lead.isEmpty then { p with parts := p.parts ++ b.parts } else b

end HostPath

/-- The host: its places by their names from the root. -/
structure Host where
  nodes : List (List Text × HostNode)

/-- An operation on the host. What was done before a refusal stays done. -/
abbrev HostM := ExceptT Fault (StateM Host)

namespace Host

def home : List Text := ["host"]

def empty : Host := ⟨[([], .directory), (home, .directory)]⟩

def node? (h : Host) (place : List Text) : Option HostNode := h.nodes.lookup place

def isDirectoryNode : Option HostNode → Bool
  | some .directory => true
  | _ => false

/-- The place that a path is followed from. -/
def startOf (p : HostPath) : List Text := if p.lead.isEmpty then home else []

/-- One part of a path, followed from a place. -/
def follow (h : Host) (place : List Text) (part : Text) : Except HostTrouble (List Text) :=
  match h.node? place with
  | none => .error .missing
  | some .directory => .ok (if part = [chr '.', chr '.'] then place.dropLast else place ++ [part])
  | some _ => .error .notDirectory

/-- The place that a path names; nothing needs to stand there. -/
def locate (h : Host) (p : HostPath) : Except HostTrouble (List Text) :=
  p.parts.foldlM h.follow (startOf p)

def find? (h : Host) (p : HostPath) : Option HostNode :=
  (h.locate p).toOption >>= h.node?

/-- Whether something stands at a path. -/
def holds (h : Host) (p : HostPath) : Bool := (h.find? p).isSome

def isDirectory (h : Host) (p : HostPath) : Bool := isDirectoryNode (h.find? p)

def comparePlaces : List Text → List Text → Ordering
  | [], [] => .eq
  | [], _ :: _ => .lt
  | _ :: _, [] => .gt
  | a :: s, b :: t => (Text.compare a b).then (comparePlaces s t)

/-- Everything below a place, by the names from there, in increasing order. -/
def below (h : Host) (place : List Text) : List (List Text × HostNode) :=
  let found := h.nodes.filterMap fun (at', node) =>
    if place.isPrefixOf at' && at'.length > place.length then some (at'.drop place.length, node)
    else none
  found.mergeSort fun a b => (comparePlaces a.1 b.1).isLE

/-- The bytes of a file as a text with plain ends of line. -/
def textOf : HostNode → Text
  | .file bytes => Text.plainEnds (Text.decode bytes)
  | .directory | .archive _ => []

/-- Puts a node at a place, instead of what stands there. -/
def put (h : Host) (place : List Text) (node : HostNode) : Host :=
  ⟨h.nodes.filter (·.1 != place) ++ [(place, node)]⟩

def refuse {α : Type} (trouble : HostTrouble) (p : HostPath) : HostM α :=
  throw (.host trouble (Text.quoted p.render))

def makeDirectory (p : HostPath) : HostM Unit := do
  let h ← get
  match h.locate p with
  | .error trouble => refuse trouble p
  | .ok place => if (h.node? place).isSome then refuse .exists p else set (h.put place .directory)

/-- Makes one directory, or is content with one that is there. -/
def ensureDirectory (p : HostPath) : HostM Unit := do
  try makeDirectory p
  catch fault => if (← get).isDirectory p then pure () else throw fault

/-- Makes a directory and those around it that miss; the parts are given last first. -/
def ensureFrom (lead : Text) : List Text → HostM Unit
  | [] => ensureDirectory ⟨lead, []⟩
  | part :: around => do
    let p : HostPath := ⟨lead, (part :: around).reverse⟩
    match (← get).locate p with
    | .error .missing => do
      ensureFrom lead around
      ensureDirectory p
    | _ => ensureDirectory p

def ensureDirectories (p : HostPath) : HostM Unit := ensureFrom p.lead p.parts.reverse

/-- Writes a file. It is empty when its content turns out to have no bytes. -/
def writeFile (p : HostPath) (content : Text) : HostM Unit := do
  let h ← get
  match h.locate p with
  | .error trouble => refuse trouble p
  | .ok place =>
    if isDirectoryNode (h.node? place) then refuse .isDirectory p
    match content.measure with
    | .error fault =>
      set (h.put place (.file []))
      throw fault
    | .ok _ => set (h.put place (.file (Text.encode content)))

/-- Removes an empty directory. A path that does not end in a name is refused. -/
def removeDirectory (p : HostPath) : HostM Unit := do
  let h ← get
  match h.locate p with
  | .error trouble => refuse trouble p
  | .ok place =>
    if p.parts.isEmpty then refuse (if p.lead.isEmpty then .invalid else .busy) p
    else if p.name = [chr '.', chr '.'] then refuse .notEmpty p
    else set (⟨h.nodes.filter (·.1 != place)⟩ : Host)

/-- Removes a directory with everything below it. A directory that cannot be removed itself, such
as the working directory as `.`, is emptied. -/
def removeTree (p : HostPath) : HostM Unit := do
  let h ← get
  match h.locate p with
  | .error trouble => refuse trouble p
  | .ok place =>
    if !isDirectoryNode (h.node? place) then
      throw (.host .notDirectory ("PosixPath(" ++ Text.quoted p.render ++ ")"))
    set (⟨h.nodes.filter fun (at', _) => !(place.isPrefixOf at' && at'.length > place.length)⟩ : Host)
    removeDirectory p

/-- The working directory as relative paths, in increasing order. -/
def listing (h : Host) : List (Text × HostNode) :=
  let found := (h.below home).map fun (place, node) => (Text.join [chr '/'] place, node)
  found.mergeSort fun a b => Text.le a.1 b.1

end Host

end TreeShell
