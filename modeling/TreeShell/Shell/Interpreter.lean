import TreeShell.Line.Heredoc.Segments
import TreeShell.Line.Weight
import TreeShell.Shell.Pipeline

/-! Running a line. A loop runs its body once for every item; substitutions are replaced
by the output of their commands; a command with a body is taken out of its block; what is
left is divided into segments. What a substitution gave is not expanded again.

Running comes to an end although a loop's items and a substitution's output are any texts:
an item has no blanks, so every line that a loop runs has fewer blanks than its own, and
the parts of a block are shorter than the block and have no more blanks. -/
namespace TreeShell

namespace ForLoop

/-- The items of a loop as a text, after the expansion `echo` when they ask for one. -/
def expandItems (loop : ForLoop) (echo : Action Text) : Action Text := do
  let items := Text.strip loop.items
  if loop.needsExpansion then
    match ← Action.observe echo with
    | .ok expanded => return Text.strip expanded
    | .error fault =>
      Action.warn ("for: could not expand '" ++ items ++ "', using it literally: " ++ fault.message)
      return items
  else return items

/-- One round of a loop. A round that fails gives a warning and no output. -/
def round (loop : ForLoop) (item : Text) (body : Action Text) : Action Text := do
  match ← Action.observe body with
  | .ok output => return output
  | .error fault =>
    Action.warn ("Error in for loop iteration (" ++ loop.name ++ chr '=' :: item ++ "): " ++
      fault.message)
    return []

/-- Runs a loop. Every line that is executed has fewer blanks than `bound`. -/
def run (loop : ForLoop) (bound : Nat) (hitems : loop.items.blanks + 1 < bound)
    (hbody : loop.body.blanks < bound) (execute : (line : Text) → line.blanks < bound → Action Text) :
    Action Text := do
  let items ← loop.expandItems
    (execute loop.itemsLine (Nat.lt_of_le_of_lt loop.blanks_itemsLine hitems))
  let outputs ← (Text.words items).attach.mapM fun ⟨item, h⟩ =>
    loop.round item (execute (loop.bodyFor item)
      (Nat.lt_of_le_of_lt (blanks_bodyFor (Text.blanks_words h) loop) hbody))
  return Text.joinLines (outputs.filter (!·.isEmpty))

end ForLoop

namespace Registry

/-- Runs a command with a body, and the text around it. -/
def runHeredoc (registry : Registry) (d : Heredoc) (lead trail : Action Text) : Action Text := do
  if !Text.allBlank d.lead then
    let _ ← lead
  if !d.closed then Action.warn "here-document delimited by end-of-file"
  let segments ← Action.ofExcept d.segments
  if d.command.isEmpty then throw .commandlessHeredoc
  let output ← registry.runSegments segments
  if Text.allBlank d.trail then return output else trail

/-- Runs a block: a command with a body and the text around it, or the segments of a line.
The text around is executed on its own. -/
def runBlock (registry : Registry) (block : Text)
    (execute : (part : Text) → part.length < block.length ∧ part.blanks ≤ block.blanks →
      Action Text) : Action Text :=
  if Heredoc.isPossible block then
    match h : Heredoc.parse block with
    | .error fault => throw fault
    | .ok (some d) =>
      registry.runHeredoc d (execute d.lead (Heredoc.parse_lighter h).1)
        (execute d.trail (Heredoc.parse_lighter h).2)
    | .ok none => do registry.runSegments (← Action.ofExcept (Segment.ofLine block))
  else do registry.runSegments (← Action.ofExcept (Segment.ofLine block))

/-- Runs a line without expanding substitutions. -/
def runPlain (registry : Registry) (line : Text) : Action Text :=
  if Text.allBlank line then return []
  else match h : ForLoop.ofLine? line with
    | some loop =>
      loop.run line.blanks (by have := ForLoop.blanks_ofLine? h; omega)
        (by have := ForLoop.blanks_ofLine? h; omega) fun part _ => registry.runPlain part
    | none => registry.runBlock line fun part _ => registry.runPlain part
termination_by (line.blanks, line.length)
decreasing_by
  · exact Prod.Lex.left _ _ (by assumption)
  · rename_i hpart
    rcases Nat.lt_or_eq_of_le hpart.2 with hlt | heq
    · exact Prod.Lex.left _ _ hlt
    · rw [heq]
      exact Prod.Lex.right _ hpart.1

/-- The output of a command, for use inside of a line. A command that fails gives a warning
and no output. -/
def capture (registry : Registry) (command : Text) : Action Text := do
  match ← Action.observe (registry.runPlain command) with
  | .ok output => return Text.dropFinal (chr '\n') output
  | .error fault =>
    Action.warn ("Command substitution failed (" ++ command.take 50 ++ "): " ++ fault.message)
    return []

end Registry

/-- A shell: its commands, and how deep it expands nested substitutions. -/
structure Shell where
  registry : Registry
  maxDepth : Int

namespace Shell

def defaultMaxDepth : Int := 10

/-- Replaces the substitutions of a line by the output of their commands, the last one
first. Inner substitutions are expanded before their command runs; what is nested too deep
stays as it is. -/
def expand (shell : Shell) (depth : Int) (line : Text) : Action Text :=
  if !Text.occursIn [chr '$', chr '('] line then return line
  else if depth > shell.maxDepth then do
    Action.warn ("Substitution depth " ++ Text.ofInt depth ++ " exceeds " ++
      Text.ofInt shell.maxDepth ++ ", leaving text unexpanded")
    return line
  else do
    (Substitution.warnings line).forM Action.warn
    (Substitution.spans line).1.attach.foldrM (fun span result => do
      let command ← shell.expand (depth + 1) span.val.inner
      return Substitution.splice result span.val (← shell.registry.capture command)) line
termination_by line.length
decreasing_by exact Substitution.length_spans span.property

def runExpanding (shell : Shell) (line : Text) : Action Text :=
  if Text.allBlank line then return []
  else match h : ForLoop.ofLine? line with
    | some loop =>
      loop.run line.blanks (by have := ForLoop.blanks_ofLine? h; omega)
        (by have := ForLoop.blanks_ofLine? h; omega) fun part _ => shell.runExpanding part
    | none => do
      shell.registry.runBlock (← shell.expand 0 line) fun part _ => shell.registry.runPlain part
termination_by line.blanks
decreasing_by assumption

/-- Runs a line, with or without expanding its substitutions. -/
def run (shell : Shell) (line : Text) (expanding : Bool) : Action Text :=
  if expanding then shell.runExpanding line else shell.registry.runPlain line

/-- Executes a line as it was typed. -/
def execute (shell : Shell) (line : Text) : Action Text := do
  Action.exit 0
  tryCatch (shell.runExpanding line) fun fault => do
    Action.exit 1
    throw fault

end Shell

end TreeShell
