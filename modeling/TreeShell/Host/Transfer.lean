import TreeShell.Shell.Session
import TreeShell.Volume.Walk

/-! Copying between a volume and the host. What was copied before a failure stays. -/
namespace TreeShell.Transfer

def makeDirectories (path : Text) : Action InodeId :=
  Action.changePartly fun v now => v.createDirectories now path

def writeFile (path content : Text) : Action InodeId :=
  Action.changePartly fun v now => v.writeFile now path content false

/-- Imports a file. In a directory of the volume it keeps its name; otherwise the
directories around the path are made. -/
def importFile (source : HostPath) (path : Text) : Action InodeId := do
  let session ← get
  match session.host.find? source with
  | none => throw (.path .missing source.render)
  | some .directory => throw (.path .isDirectory source.render)
  | some node =>
    let v := session.volume
    match (v.resolve? path).filter v.isDirectory with
    | some directory => writeFile (Path.append (v.pathOf directory) source.name) (Host.textOf node)
    | none => do
      let _ ← makeDirectories (Path.parse path).1
      writeFile path (Host.textOf node)

/-- Imports one entry of a directory of the host below a directory of the volume. -/
def importEntry (base : Text) (entry : List Text × HostNode) : Action Unit := do
  let path := Path.append base (Text.join [chr '/'] entry.1)
  match entry.2 with
  | .directory =>
    let _ ← makeDirectories path
  | node =>
    let _ ← writeFile path (Host.textOf node)

def importDirectory (source : HostPath) (path : Text) : Action InodeId := do
  let host := (← get).host
  if !host.isDirectory source then throw (.path .notDirectory source.render)
  let place := (host.locate source).toOption.getD []
  let root ← makeDirectories path
  let base := (← Action.volume).pathOf root
  (host.below place).forM (importEntry base)
  return root

/-- Exports a file. In a directory of the host it keeps its name. -/
def exportFile (path : Text) (target : HostPath) : Action HostPath := do
  let node ← Action.ask fun v => v.lookup path
  let v ← Action.volume
  match v.content? node with
  | none => throw (.path .isDirectory path)
  | some content =>
    let target := if (← get).host.isDirectory target then target.join (v.nameOf node) else target
    Action.onHost do
      Host.ensureDirectories target.parent
      Host.writeFile target content
    return target

def exportEntry (v : Volume) (target : HostPath) (entry : Text × InodeId) : HostM Unit := do
  let place := target.join entry.1
  match v.content? entry.2 with
  | none => Host.ensureDirectories place
  | some content =>
    Host.ensureDirectories place.parent
    Host.writeFile place content

def exportDirectory (path : Text) (target : HostPath) : Action HostPath := do
  let node ← Action.ask fun v => v.lookup path
  let v ← Action.volume
  if !v.isDirectory node then throw (.path .notDirectory path)
  Action.onHost do
    Host.ensureDirectories target
    (v.walk node).forM (exportEntry v target)
  return target

/-- Exports the whole tree; what stands at the target can be removed first. -/
def clone (target : HostPath) (clean : Bool) : Action HostPath := do
  if clean && (← get).host.holds target then Action.onHost (Host.removeTree target)
  exportDirectory [chr '/'] target

/-- A name without the dots and slashes that say where it is. -/
def dropHere : Text → Text
  | '.' :: '/' :: rest => dropHere rest
  | t => t

/-- The path of a member below the place it is unpacked to; `none` when it would leave it. -/
def memberPath? (name : Text) : Option Text :=
  let path := Text.trimWhile (· == '/') (dropHere name)
  if path.isEmpty || (path.splitOn (chr '/')).contains [chr '.', chr '.'] then none else some path

/-- Unpacks one member of an archive below a directory of the volume. -/
def unpackMember (base : Text) (member : Member) : Action Unit := do
  match memberPath? member.name with
  | none => return ()
  | some below =>
    let path := Path.append base below
    match member.kind with
    | .directory =>
      let _ ← makeDirectories path
    | .file bytes => do
      let _ ← makeDirectories (Path.parse path).1
      let _ ← writeFile path (Text.decode bytes)
    | .other => return ()

def unpack (members : List Member) (path : Text) : Action InodeId := do
  let root ← makeDirectories path
  let base := (← Action.volume).pathOf root
  members.forM (unpackMember base)
  return root

def archiveEndings : List Text := [".tar", ".tar.gz", ".tgz"]

/-- Fills a directory of the volume from a directory or an archive of the host. -/
def seed (source : HostPath) (path : Text) : Action InodeId := do
  let host := (← get).host
  let refused : Fault :=
    .pathNote .missing (source.render ++ ": not a directory or tar archive")
  match host.find? source with
  | some .directory => importDirectory source path
  | some (.archive members) =>
    if archiveEndings.any (·.isSuffixOf source.name) then unpack members path else throw refused
  | _ => throw refused

end TreeShell.Transfer
