import TreeShell.Builtin.All
import TreeShell.Shell.Interpreter
import TreeShell.Volume.Snapshot

/-! The tool: a shell whose tree and current directory last from call to call. A call never
fails; its answer is a text that begins with an exit code. -/
namespace TreeShell

structure ToolResult where
  exitCode : Nat
  output : Text
  errors : Text

/-- The answer to a call. Errors are shown after a failure, when there are any or when
there is nothing else to show. -/
def ToolResult.render (result : ToolResult) : Text :=
  let failed := result.exitCode ≠ 0
  let first : Text := "Exit code: " ++ Text.ofNat result.exitCode ++ if failed then " (error)" else ""
  let output : List Text :=
    if result.output.isEmpty then [] else [[], Text.stripEnd result.output]
  let errors : List Text :=
    if failed ∧ (!result.errors.isEmpty ∨ result.output.isEmpty) then
      [[], "--- stderr ---", Text.stripEnd result.errors]
    else []
  Text.joinLines (first :: output ++ errors)

/-- A tree written down together with the path of the current directory. A field that was
not written is `none`. -/
structure SavedState where
  cwd : Option Text
  root : Option Snapshot

/-- A tool: its shell, its session, and whether it answers calls. -/
structure Tool where
  shell : Shell
  session : Session
  enabled : Bool

/-- How the tool presents itself to a caller. -/
structure ToolDefinition where
  name : Text
  summary : Text
  parameter : Text
  parameterSummary : Text

namespace Tool

def definition : ToolDefinition where
  name := "memshell"
  summary := "Execute shell commands in an in-memory filesystem. Supports pipes (|), " ++
    "operators (&&, ||, ;), redirections (>, >>, <, 2>, 2>>, &>, 2>&1), " ++
    "heredocs (<<EOF), command substitution $(...), wildcards and " ++
    "for loops. Available commands include ls, cat, echo, grep, sed, find, " ++
    "head, tail, wc, sort, uniq, diff, patch, mkdir, rm, mv, cp, touch, " ++
    "write, tee and more. State persists across calls."
  parameter := "command"
  parameterSummary := "Shell command line to run against the in-memory filesystem"

def start (maxDepth : Int) (enabled : Bool) (now : Instant) : Tool where
  shell := ⟨Builtin.registry, maxDepth⟩
  session := Session.start (Volume.fresh now) Host.empty now
  enabled := enabled

def atTime (tool : Tool) (now : Instant) : Tool :=
  { tool with session := { tool.session with now := now, warnings := [] } }

/-- Runs a command line; a failure becomes an exit code and a message. -/
def run (tool : Tool) (line : Text) : ToolResult × Tool :=
  let (result, session) := (tool.shell.execute line).run.run tool.session
  let answer := match result with
    | .ok output => ⟨session.exitCode, output, []⟩
    | .error fault => ⟨1, [], fault.message⟩
  (answer, { tool with session := session })

/-- Answers a call with a command line, if there is one. -/
def call (tool : Tool) (line : Option Text) : Text × Tool :=
  match line with
  | none | some [] => ("Error: " ++ definition.parameter ++ " parameter is required", tool)
  | some line =>
    if tool.enabled then
      let (result, tool) := tool.run line
      (result.render, tool)
    else ("Error: tool '" ++ definition.name ++ "' is disabled", tool)

def enable (tool : Tool) (enabled : Bool) : Tool := { tool with enabled := enabled }

def reset (tool : Tool) : Tool :=
  { tool with
    shell := { tool.shell with registry := Builtin.registry }
    session := { Session.start (Volume.fresh tool.session.now) tool.session.host tool.session.now with
      warnings := tool.session.warnings } }

def save (tool : Tool) : SavedState :=
  ⟨some tool.session.volume.currentPath, some (Snapshot.ofVolume tool.session.volume)⟩

def withVolume (tool : Tool) (v : Volume) : Tool :=
  { tool with session := { tool.session with volume := v } }

/-- Replaces the tree by one that was written down, and goes to the directory that was
current if the path is there. -/
def restore (tool : Tool) (state : SavedState) : Except Fault Unit × Tool :=
  match state.root with
  | none => (.error .snapshotWithoutRoot, tool)
  | some root =>
    match root.toVolume tool.session.now with
    | .error fault => (.error fault, tool)
    | .ok v =>
      match state.cwd.getD [] with
      | [] => (.ok (), tool.withVolume v)
      | cwd =>
        if (v.resolve? cwd).isNone then (.ok (), tool.withVolume v)
        else match v.changeDirectory cwd with
          | .ok w => (.ok (), tool.withVolume w)
          | .error fault => (.error fault, tool.withVolume v)

end Tool

end TreeShell
