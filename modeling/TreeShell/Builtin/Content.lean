import TreeShell.Builtin.Basic
import TreeShell.Text.Lines

/-! The commands that show contents or store them: `cat`, `head`, `tail`, `wc` and `tee`. -/
namespace TreeShell.Builtin

open Options

def catSpec : Spec where
  command := "cat"
  summary := "Concatenate and display files"
  switches := [.askHelp, .flag ["-n", "--number"] "Number all output lines"]
  operands := [⟨"files", .many, "Files to concatenate (use - for stdin)"⟩]

def numberLines (t : Text) : Text :=
  Text.joinLines ((Text.lines t).zipIdx.map fun (line, index) =>
    (Text.ofNat (index + 1)).padStart 6 ++ "  " ++ line)

def cat : Command := filter catSpec fun arguments stdin => do
  let found ← inputs "cat" (arguments.words "files") stdin
  let output := found.flatMap Prod.snd
  return if arguments.isOn "-n" then numberLines output else output

/-- Outputs under headers with their names; a single one stands alone. -/
def withHeaders : List (Text × Text) → Text
  | [(_, text)] => text
  | outputs => Text.join "\n\n" (outputs.map fun (name, text) =>
      "==> " ++ name ++ " <==\n" ++ text)

def headSpec : Spec where
  command := "head"
  summary := "Output the first part of files"
  switches := [.askHelp,
    ⟨["-n", "--lines"], .integer "NUM", "Print the first NUM lines (default 10)"⟩]
  operands := [⟨"files", .many, "Files to read"⟩]

/-- The first lines; a negative number says how many are left out at the end. -/
def firstLines (count : Int) (lines : List Text) : List Text :=
  if 0 ≤ count then lines.take count.toNat else lines.take (lines.length + count).toNat

def head : Command := filter headSpec fun arguments stdin => do
  let count := (arguments.integer? "-n").getD 10
  let found ← inputs "head" (arguments.words "files") stdin
  return withHeaders (found.map fun (name, content) =>
    (name, Text.joinLines (firstLines count (Text.lines content))))

def tailSpec : Spec where
  command := "tail"
  summary := "Output the last part of files"
  switches := [.askHelp, ⟨["-n", "--lines"], .text "NUM",
    "Print the last NUM lines, or from line NUM with +NUM"⟩]
  operands := [⟨"files", .many, "Files to read"⟩]

/-- Which lines `tail` shows: the last ones, or those from a number on. -/
inductive TailPart where
  | last (count : Nat)
  | fromLine (number : Nat)

def TailPart.parse (t : Text) : Except Fault TailPart :=
  let refused : Fault := .refused ("tail: invalid number of lines: '" ++ t ++ [chr '\''])
  match t with
  | [] => .error refused
  | '+' :: digits =>
    match digits.isEmpty, Text.digits? digits with
    | false, some number => .ok (.fromLine number)
    | _, _ => .error refused
  | digits =>
    match Text.digits? digits with
    | some count => .ok (.last count)
    | none => .error refused

def TailPart.select (lines : List Text) : TailPart → List Text
  | .last count => lines.drop (lines.length - count)
  | .fromLine number => lines.drop (number - 1)

def tail : Command := filter tailSpec fun arguments stdin => do
  let part ← Action.ofExcept (TailPart.parse ((arguments.text? "-n").getD "10"))
  let found ← inputs "tail" (arguments.words "files") stdin
  return withHeaders (found.map fun (name, content) =>
    (name, Text.joinLines (part.select (Text.lines content))))

def wcSpec : Spec where
  command := "wc"
  summary := "Count lines, words, and bytes"
  switches := [.askHelp, .flag ["-l", "--lines"] "Print the line count",
    .flag ["-w", "--words"] "Print the word count",
    .flag ["-c", "--bytes"] "Print the byte count"]
  operands := [⟨"files", .many, "Files to count"⟩]

/-- The numbers of lines, words and bytes. -/
structure Counts where
  lines : Nat
  words : Nat
  bytes : Nat

def Counts.ofText (t : Text) : Except Fault Counts := do
  return ⟨(Text.lines t).length, (Text.words t).length, ← Text.measure t⟩

def Counts.total : List Counts → Counts
  | [] => ⟨0, 0, 0⟩
  | first :: rest =>
    let sum := total rest
    ⟨first.lines + sum.lines, first.words + sum.words, first.bytes + sum.bytes⟩

/-- A row of counts, those that are asked for or all, with a name. -/
def Counts.render (arguments : Arguments) (counts : Counts) (name : Option Text) : Text :=
  let columns := [("-l", counts.lines), ("-w", counts.words), ("-c", counts.bytes)]
  let asked := columns.filter fun (key, _) => arguments.isOn key
  let shown := if asked.isEmpty then columns else asked
  Text.join [chr ' '] (shown.map (fun (_, n) => Text.ofNat n) ++ name.toList)

def wc : Command := filter wcSpec fun arguments stdin => do
  let files := arguments.words "files"
  let found ← inputs "wc" files stdin
  let counted ← Action.ofExcept (found.mapM fun (name, content) =>
    return (name, ← Counts.ofText content))
  let rows := counted.map fun (name, counts) =>
    counts.render arguments (if files.isEmpty then none else some name)
  let total := Counts.total (counted.map Prod.snd)
  let last := if found.length > 1 then [total.render arguments (some "total")] else []
  return Text.joinLines (rows ++ last)

def teeSpec : Spec where
  command := "tee"
  summary := "Copy stdin to files and to stdout"
  switches := [.askHelp, .flag ["-a", "--append"] "Append to the given files"]
  operands := [⟨"files", .many, "Files to write"⟩]

def tee : Command := filter teeSpec fun arguments stdin => do
  let content := stdin.getD []
  (arguments.words "files").forM fun path =>
    Redirection.write ⟨path, content, arguments.isOn "-a"⟩
  return content

end TreeShell.Builtin
