import TreeShell.Host.Basic
import TreeShell.Volume.Create

/-! A session: what commands work on. An action either gives a result or fails, and the
session goes on in both cases, so that what a command did before it failed stays done. -/
namespace TreeShell

structure Session where
  volume : Volume
  host : Host
  /-- The time at which everything happens until it is set anew. -/
  now : Instant
  /-- Zero after success, one after failure. -/
  exitCode : Nat
  /-- The warnings so far, in order. -/
  warnings : List Text
  /-- The remarks of the command at hand, when they are collected. -/
  remarks : Option (List Text)

def Session.start (volume : Volume) (host : Host) (now : Instant) : Session :=
  ⟨volume, host, now, 0, [], none⟩

/-- Something done in a session. -/
abbrev Action := ExceptT Fault (StateM Session)

namespace Action

def observe {α : Type} (action : Action α) : Action (Except Fault α) :=
  fun session => let (result, session) := action.run.run session; (.ok result, session)

def ofExcept {α : Type} : Except Fault α → Action α
  | .ok a => pure a
  | .error fault => throw fault

def warn (t : Text) : Action Unit :=
  modify fun session => { session with warnings := session.warnings ++ [t] }

/-- Adds a remark, which is a warning when remarks are not collected. -/
def remark (t : Text) : Action Unit :=
  modify fun session =>
    match session.remarks with
    | some remarks => { session with remarks := some (remarks ++ [t]) }
    | none => { session with warnings := session.warnings ++ [t] }

def exit (code : Nat) : Action Unit := modify fun session => { session with exitCode := code }

def volume : Action Volume := return (← get).volume

def ask {α : Type} (question : Volume → Except Fault α) : Action α := do
  ofExcept (question (← volume))

def setVolume (v : Volume) : Action Unit := modify fun session => { session with volume := v }

def change {α : Type} (step : Volume → Instant → Except Fault (α × Volume)) : Action α := do
  let session ← get
  let (result, v) ← ofExcept (step session.volume session.now)
  setVolume v
  return result

/-- A change of the volume that may fail when a part of it has been made. -/
def changePartly {α : Type} (step : Volume → Instant → Except Fault α × Volume) : Action α := do
  let session ← get
  let (result, v) := step session.volume session.now
  setVolume v
  ofExcept result

def onHost {α : Type} (operation : HostM α) : Action α := do
  let (result, h) := operation.run.run (← get).host
  modify fun session => { session with host := h }
  ofExcept result

def rewording {α : Type} (words : Fault → Fault) (action : Action α) : Action α :=
  tryCatch action fun fault => throw (fault.reworded words)

def within {α : Type} (command : Text) (action : Action α) : Action α :=
  rewording (.within command) action

end Action

end TreeShell
