import TreeShell.Fault
import TreeShell.Options.Help
import TreeShell.Text.Integer
import TreeShell.Text.Quoted

/-! Reading the words of a command. They are read twice: the first time every switch is
taken out, wherever it stands, and the operands wait; the second time the words that are
left fill the operands. A separator `--` makes operands of all words after it, but one
that no operand precedes is used up by the first reading, so that the second one sees
switches again. -/
namespace TreeShell.Options

/-- What a word is taken for. -/
inductive Item where
  | operand (word : Text)
  | separator
  | unknown (word : Text)
  /-- A switch under one of its spellings, and the text attached to it. -/
  | switch (s : Switch) (name : Text) (attached : Option Text)

inductive Stop where
  | help
  | complaint (t : Text)

def separatorWord : Text := [chr '-', chr '-']

def Item.word : Item → Text
  | .operand word | .unknown word => word
  | .separator => separatorWord
  | .switch _ name attached => name ++ attached.getD []

def Item.isSeparator : Item → Bool
  | .separator => true
  | _ => false

/-- Whether a word is a negative number. An end of line may follow it. -/
def isNegativeNumber (word : Text) : Bool :=
  match Text.dropFinal (chr '\n') word with
  | '-' :: digits =>
    match Text.breakOn? (chr '.') digits with
    | none => !digits.isEmpty && digits.all Text.isDecimalDigit
    | some (whole, fraction) =>
      whole.all Text.isDecimalDigit && !fraction.isEmpty && fraction.all Text.isDecimalDigit
  | _ => false

/-- The switches that a word with one dash can mean: a one-letter switch with text
attached, or a longer one of which the word is the beginning. -/
def candidates (spec : Spec) (word : Text) : List (Switch × Text × Option Text) :=
  if separatorWord.isPrefixOf word then []
  else spec.switches.flatMap fun s => s.names.filterMap fun name =>
    if name = word.take 2 then some (s, name, some (word.drop 2))
    else if word.isPrefixOf name then some (s, name, none)
    else none

def withValue? (spec : Spec) (word : Text) : Option Item := do
  let (name, value) ← Text.breakOn? (chr '=') word
  let s ← spec.find? name
  return .switch s name (some value)

/-- What a word that is no known spelling is taken for. -/
def guess (spec : Spec) (word : Text) : Except Stop Item :=
  match candidates spec word with
  | [(s, name, attached)] => .ok (.switch s name attached)
  | [] =>
    if isNegativeNumber word || word.contains (chr ' ') then .ok (.operand word)
    else .ok (.unknown word)
  | several =>
    .error (.complaint ("ambiguous option: " ++ word ++ " could match " ++
      Text.join ", " (several.map fun (_, name, _) => name)))

def classify (spec : Spec) (word : Text) : Except Stop Item :=
  if word.head? != some (chr '-') then .ok (.operand word)
  else match spec.find? word with
    | some s => .ok (.switch s word none)
    | none =>
      if word.length = 1 then .ok (.operand word)
      else match withValue? spec word with
        | some item => .ok item
        | none => guess spec word

def classifyAll (spec : Spec) : List Text → Except Stop (List Item)
  | [] => .ok []
  | word :: rest =>
    if word = separatorWord then .ok (.separator :: rest.map .operand)
    else do
      let item ← classify spec word
      return item :: (← classifyAll spec rest)

def Switch.complaint (s : Switch) (detail : Text) : Stop :=
  .complaint ("argument " ++ Text.join [chr '/'] s.names ++ ": " ++ detail)

/-- The complaint about a text attached to a switch that takes no value. -/
def Switch.ignored (s : Switch) (attached : Text) : Stop :=
  s.complaint ("ignored explicit argument " ++ Text.quoted attached)

/-- The switches in a cluster: a text attached to a one-letter switch without a value
holds further letters. -/
def cluster (spec : Spec) (s : Switch) (single : Bool) :
    (attached : Text) → Except Stop (List (Switch × Option Text))
  | [] => if s.effect.takesValue then .ok [(s, some [])] else .error (s.ignored [])
  | c :: rest =>
    if s.effect.takesValue then .ok [(s, some (c :: rest))]
    else if !single then .error (s.ignored (c :: rest))
    else match spec.find? [chr '-', c] with
      | none => .error (s.ignored (c :: rest))
      | some next =>
        if rest.isEmpty then .ok [(s, none), (next, none)]
        else (cluster spec next true rest).map ((s, none) :: ·)

/-- The switches that an item stands for. -/
def unfold (spec : Spec) (s : Switch) (name : Text) (attached : Option Text) :
    Except Stop (List (Switch × Option Text)) :=
  match attached with
  | none => .ok [(s, none)]
  | some text => cluster spec s (!separatorWord.isPrefixOf name) text

def Switch.value (s : Switch) (text : Option Text) : Except Stop Value :=
  match s.effect, text with
  | .help, _ => .error .help
  | .flag, _ | _, none => .ok .on
  | .text _, some t => .ok (.text t)
  | .integer _, some t =>
    match Text.integer? t with
    | some n => .ok (.integer n)
    | none => .error (s.complaint ("invalid int value: " ++ Text.quoted t))
  | .choice values, some t =>
    if values.contains t then .ok (.text t)
    else .error (s.complaint ("invalid choice: " ++ Text.quoted t ++ " (choose from " ++
      Text.join ", " (values.map Text.quoted) ++ ")"))

/-- The settings that switches make, in order. -/
def settings (switches : List (Switch × Option Text)) : Except Stop (List (Text × Value)) :=
  switches.mapM fun (s, text) => return (s.key, ← s.value text)

def downTo (low high : Nat) : List Nat :=
  ((List.range (high + 1)).filter (low ≤ ·)).reverse

/-- How many words of a run an operand may take, the preferred number first. The run says
of each word whether it is a separator. -/
def Arity.choices (arity : Arity) (run : List Bool) : List Nat :=
  let lead := (run.takeWhile id).length
  let first := match run.drop lead with
    | _ :: rest => downTo (lead + 1) (lead + 1 + (rest.takeWhile id).length)
    | [] => []
  match arity with
  | .one => first
  | .optional => first ++ downTo 0 lead
  | .many => downTo 0 run.length
  | .atLeastOne => if run.length = lead then [] else downTo (lead + 1) run.length
  | .waiting => downTo 0 lead

/-- How many words each operand takes, if all of them can be served. -/
def serve : List Arity → List Bool → Option (List Nat)
  | [], _ => some []
  | arity :: rest, run =>
    (arity.choices run).findSome? fun n => (serve rest (run.drop n)).map (n :: ·)

/-- How many words the operands take; if not all can be served, the first ones are. -/
def serveMost (arities : List Arity) (run : List Bool) : List Nat :=
  ((downTo 0 arities.length).findSome? fun n => serve (arities.take n) run).getD []

structure Progress where
  settings : List (Text × Value)
  /-- The operands that still take words. -/
  waiting : List Operand
  filled : List (Text × List Text)
  /-- The words that nothing has taken. -/
  left : List Text

def hand : List Operand → List Nat → List Text → List (Text × List Text) × List Text
  | o :: operands, n :: counts, words =>
    let (filled, left) := hand operands counts (words.drop n)
    ((o.name, (words.take n).erase separatorWord) :: filled, left)
  | _, _, words => ([], words)

def Progress.offer (p : Progress) (run : List Item) : Progress :=
  let counts := serveMost (p.waiting.map Operand.arity) (run.map Item.isSeparator)
  let (filled, left) := hand p.waiting counts (run.map Item.word)
  { p with
    waiting := p.waiting.drop counts.length
    filled := p.filled ++ filled
    left := p.left ++ left }

/-- Reads items. Words are collected in `run` until a switch or the end is met, and are
then offered to the operands together. -/
def readItems (spec : Spec) (p : Progress) (run : List Item) : List Item → Except Stop Progress
  | [] => .ok (p.offer run)
  | .operand word :: rest => readItems spec p (run ++ [.operand word]) rest
  | .separator :: rest => readItems spec p (run ++ [.separator]) rest
  | .unknown word :: rest =>
    let p := if run.isEmpty then p else p.offer run
    readItems spec { p with left := p.left ++ [word] } [] rest
  | .switch s name attached :: rest => do
    let p := if run.isEmpty then p else p.offer run
    let switches ← unfold spec s name attached
    match switches.getLast? with
    | some (last, none) =>
      if last.effect.takesValue then
        match rest with
        | .operand word :: rest =>
          let made ← settings (switches.dropLast ++ [(last, some word)])
          readItems spec { p with settings := p.settings ++ made } [] rest
        | _ => throw (last.complaint "expected one argument")
      else
        let made ← settings switches
        readItems spec { p with settings := p.settings ++ made } [] rest
    | _ =>
      let made ← settings switches
      readItems spec { p with settings := p.settings ++ made } [] rest

def readWords (spec : Spec) (operands : List Operand) (made : List (Text × Value))
    (words : List Text) : Except Stop Progress := do
  readItems spec ⟨made, operands, [], []⟩ [] (← classifyAll spec words)

def Operand.isRequired (o : Operand) : Bool := o.arity != .optional

/-- Reads the words of a command: first for the switches, then for the operands. -/
def readTwice (spec : Spec) (words : List Text) : Except Stop Arguments := do
  let hold (o : Operand) : Operand := { o with arity := .waiting }
  let first ← readWords spec (spec.operands.map hold) [] words
  let second ← readWords spec spec.operands first.settings first.left
  let missing := second.waiting.filter Operand.isRequired
  if !missing.isEmpty then
    throw (.complaint ("the following arguments are required: " ++
      Text.join ", " (missing.map Operand.name)))
  if !second.left.isEmpty then
    throw (.complaint ("unrecognized arguments: " ++ Text.join [chr ' '] second.left))
  return ⟨second.settings, second.filled⟩

/-- What the words of a command ask for: the help, or the work with some arguments. -/
inductive Request where
  | help (t : Text)
  | work (arguments : Arguments)

def Spec.read (spec : Spec) (words : List Text) : Except Fault Request :=
  match readTwice spec words with
  | .ok arguments => .ok (.work arguments)
  | .error .help => .ok (.help spec.helpText)
  | .error (.complaint detail) => .error (.usage spec.command detail spec.usage)

end TreeShell.Options
