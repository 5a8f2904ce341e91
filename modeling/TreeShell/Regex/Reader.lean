import TreeShell.Regex.Basic
import TreeShell.Text.Alphanumeric
import TreeShell.Text.Quoted

/-! Reading regular expressions. An expression is first divided into tokens, a character
or a backslash with the character after it; a backslash at the very end is reported as
soon as it comes next. -/
namespace TreeShell.Regex

inductive Token where
  | char (c : CodePoint)
  | escape (c : CodePoint)
  /-- A backslash with nothing behind it. -/
  | broken
  deriving DecidableEq

def tokens (position : Nat) : Text → List (Nat × Token)
  | [] => []
  | '\\' :: c :: rest => (position, .escape c) :: tokens (position + 2) rest
  | ['\\'] => [(position, .broken)]
  | c :: rest => (position, .char c) :: tokens (position + 1) rest

/-- The state of reading: what is left, the length of the whole, and the groups. -/
structure Reading where
  rest : List (Nat × Token)
  size : Nat
  groups : Nat
  opened : List Nat
  names : List (Text × Nat)

/-- A step of reading. -/
abbrev ReadM := StateT Reading (Except RegexError)

def tell : ReadM Nat := do
  let s ← get
  return match s.rest with
    | (position, _) :: _ => position
    | [] => s.size

def complain {α : Type} (complaint : Text) (back : Nat) : ReadM α := do
  throw ⟨complaint, (← tell) - back⟩

def peek : ReadM (Option Token) := return (← get).rest.head?.map Prod.snd

def checkNext : ReadM Unit := do
  if (← peek) == some .broken then complain "bad escape (end of pattern)" 0

def take : ReadM (Option Token) := do
  let token ← peek
  modify fun s => { s with rest := s.rest.tail }
  checkNext
  return token

/-- Takes a character if it comes next. -/
def accept (c : CodePoint) : ReadM Bool := do
  if (← peek) == some (.char c) then
    let _ ← take
    return true
  else return false

def takeChars (p : CodePoint → Bool) : (count : Nat) → ReadM Text
  | 0 => return []
  | count + 1 => do
    match ← peek with
    | some (.char c) =>
      if p c then
        let _ ← take
        return c :: (← takeChars p count)
      else return []
    | _ => return []

def takeWhile (p : CodePoint → Bool) : ReadM Text := do takeChars p (← get).rest.length

def Token.text : Token → Text
  | .char c => [c]
  | .escape c => [chr '\\', c]
  | .broken => [chr '\\']

/-- Takes a name up to a character that ends it. -/
def takeName (final : CodePoint) (what : Text) : (bound : Nat) → (name : Text) → ReadM Text
  | 0, name => return name
  | bound + 1, name => do
    match ← take with
    | none =>
      if name.isEmpty then complain ("missing " ++ what) 0
      else complain ("missing " ++ final :: ", unterminated name") name.length
    | some token =>
      if token == .char final then
        if name.isEmpty then complain ("missing " ++ what) 1 else return name
      else takeName final what bound (name ++ token.text)

def isGroupName (name : Text) : Bool :=
  match name with
  | c :: rest => (Text.isWordChar c && !c.isDigit) && rest.all Text.isWordChar
  | [] => false

def takeGroupName (final : CodePoint) : ReadM Text := do
  let name ← takeName final "group name" ((← get).rest.length + 1) []
  if !isGroupName name then
    complain ("bad character in group name " ++ Text.quoted name) (name.length + 1)
  return name

def digitsValue (base : Nat) (digits : Text) : Nat :=
  digits.foldl (fun n c => n * base +
    (if c.isDigit then c.toNat - 48 else c.toLower.toNat - 87)) 0

def isHexDigit (c : CodePoint) : Bool := c.isDigit || ("abcdefABCDEF" : Text).contains c

def isOctalDigit (c : CodePoint) : Bool := ("01234567" : Text).contains c

/-- The character with a code that is written with a fixed number of digits. -/
def takeHex (letter : CodePoint) (count : Nat) : ReadM CodePoint := do
  let digits ← takeChars isHexDigit count
  if digits.length != count then
    complain ("incomplete escape \\" ++ letter :: digits) (digits.length + 2)
  return CodePoint.ofNat (digitsValue 16 digits)

/-- The characters that have an escape of their own. -/
def controlEscape? : CodePoint → Option CodePoint
  | 'a' => some (CodePoint.ofNat 7)
  | 'b' => some (CodePoint.ofNat 8)
  | 'f' => some (CodePoint.ofNat 12)
  | 'n' => some (chr '\n')
  | 'r' => some (chr '\r')
  | 't' => some (chr '\t')
  | 'v' => some (CodePoint.ofNat 11)
  | '\\' => some (chr '\\')
  | _ => none

def classEscape? : CodePoint → Option SetItem
  | 'd' => some (.named .digit false)
  | 'D' => some (.named .digit true)
  | 's' => some (.named .blank false)
  | 'S' => some (.named .blank true)
  | 'w' => some (.named .word false)
  | 'W' => some (.named .word true)
  | _ => none

def anchorEscape? : CodePoint → Option Anchor
  | 'A' => some .textStart
  | 'b' => some .wordEdge
  | 'B' => some .noWordEdge
  | 'Z' => some .textEnd
  | _ => none

def octalChar (digits : Text) : ReadM CodePoint := do
  let n := digitsValue 8 digits
  if 0o377 < n then
    complain ("octal escape value \\" ++ digits ++ " outside of range 0-0o377") (digits.length + 1)
  return CodePoint.ofNat n

/-- An escape that stands for a character by its code, or for itself. -/
def plainEscape (c : CodePoint) : ReadM CodePoint := do
  if c == 'x' then takeHex c 2
  else if c == 'u' then takeHex c 4
  else if c == 'U' then takeHex c 8
  else if c.isAlphanum then complain ("bad escape \\" ++ [c]) 2
  else return c

/-- An escape inside a set. -/
def setEscape (c : CodePoint) : ReadM SetItem := do
  match controlEscape? c, classEscape? c with
  | some d, _ => return .range d d
  | none, some item => return item
  | none, none =>
    if isOctalDigit c then
      let d ← octalChar (c :: (← takeChars isOctalDigit 2))
      return .range d d
    else
      let d ← plainEscape c
      return .range d d

def groupReference (digits : Text) : ReadM Regex := do
  let number := digitsValue 10 digits
  let s ← get
  if s.groups < number then
    complain ("invalid group reference " ++ Text.ofNat number) digits.length
  if s.opened.contains number then
    complain "cannot refer to an open group" (digits.length + 1)
  return .reference number

/-- An escape that begins with a digit: a character by its code, or a group. -/
def digitEscape (c : CodePoint) : ReadM Regex := do
  if c == '0' then
    return .char (← octalChar (c :: (← takeChars isOctalDigit 2)))
  match ← takeChars CodePoint.isDigit 1 with
  | [d] =>
    if isOctalDigit c && isOctalDigit d then
      match ← takeChars isOctalDigit 1 with
      | [e] => return .char (← octalChar [c, d, e])
      | _ => groupReference [c, d]
    else groupReference [c, d]
  | _ => groupReference [c]

def escapeItem (c : CodePoint) : ReadM Regex := do
  match anchorEscape? c, classEscape? c, controlEscape? c with
  | some which, _, _ => return .anchor which
  | none, some item, _ => return .set false [item]
  | none, none, some d => return .char d
  | none, none, none =>
    if c.isDigit then digitEscape c else return .char (← plainEscape c)

/-- A member of a set, read from its first token. -/
def setItem : Token → ReadM SetItem
  | .escape c => setEscape c
  | .char c => return .range c c
  | .broken => return .range (chr '\\') (chr '\\')

/-- The members of a set up to the bracket that closes it; `start` is where it begins. -/
def setItems (start : Nat) : (bound : Nat) → (items : List SetItem) → ReadM (List SetItem)
  | 0, items => return items
  | bound + 1, items => do
    match ← take with
    | none => throw ⟨"unterminated character set", start⟩
    | some token =>
      if token == .char (chr ']') && !items.isEmpty then return items
      let low ← setItem token
      if ← accept (chr '-') then
        match ← take with
        | none => throw ⟨"unterminated character set", start⟩
        | some next =>
          if next == .char (chr ']') then return items ++ [low, .range (chr '-') (chr '-')]
          let high ← setItem next
          let bad : ReadM (List SetItem) :=
            complain ("bad character range " ++ token.text ++ chr '-' :: next.text)
              (token.text.length + 1 + next.text.length)
          match low, high with
          | .range a _, .range b _ =>
            if b.toNat < a.toNat then bad else setItems start bound (items ++ [.range a b])
          | _, _ => bad
      else setItems start bound (items ++ [low])

def charSet : ReadM Regex := do
  let start := (← tell) - 1
  let negated ← accept (chr '^')
  return .set negated (← setItems start ((← get).rest.length + 1) [])

/-- The bounds of a repetition in braces, `none` when the brace is an ordinary character. -/
def braces? : ReadM (Option (Nat × Option Nat)) := do
  let saved ← get
  let here ← tell
  if (← peek) == some (.char (chr '\x7d')) then return none
  let low ← takeWhile CodePoint.isDigit
  let high ← if ← accept (chr ',') then takeWhile CodePoint.isDigit else pure low
  if !(← accept (chr '\x7d')) then
    modify fun _ => saved
    return none
  let least := digitsValue 10 low
  let most := if high.isEmpty then none else some (digitsValue 10 high)
  if most.any (· < least) then throw ⟨"min repeat greater than max repeat", here⟩
  return some (least, most)

def repetition? (c : CodePoint) : ReadM (Option (Nat × Option Nat)) :=
  if c == '?' then return some (0, some 1)
  else if c == '*' then return some (0, none)
  else if c == '+' then return some (1, none)
  else braces?

/-- Takes the mark behind a repetition that says how much it takes. -/
def takeGreed : ReadM Greed := do
  match ← peek with
  | some (.char '?') => do
    let _ ← take
    return .lazy
  | some (.char '+') => do
    let _ ← take
    return .possessive
  | _ => return .greedy

/-- Repeats the last item; `position` is that of the mark. -/
def repeatLast (position least : Nat) (most : Option Nat) (items : List Regex) :
    ReadM (List Regex) := do
  match items with
  | [] | .anchor _ :: _ => throw ⟨"nothing to repeat", position⟩
  | .loop .. :: _ => throw ⟨"multiple repeat", position⟩
  | item :: before =>
    return .loop least most (← takeGreed) item :: before

def openGroup (name : Option Text) : ReadM Nat := do
  let s ← get
  let number := s.groups + 1
  match name with
  | some name =>
    match s.names.lookup name with
    | some old =>
      complain ("redefinition of group name " ++ Text.quoted name ++ " as group " ++
        Text.ofNat number ++ "; was group " ++ Text.ofNat old) (name.length + 1)
    | none => modify fun s => { s with names := (name, number) :: s.names }
  | none => pure ()
  modify fun s => { s with groups := number, opened := number :: s.opened }
  return number

/-- What a parenthesis begins. -/
inductive Opening where
  | capturing (name : Option Text)
  | plain
  | ahead (negated : Bool)
  | atomic
  /-- Something that is complete already: a reference by name, or a remark. -/
  | done (item : Option Regex)

/-- Passes over a remark; `start` is where its parenthesis stands. -/
def skipRemark (start : Nat) : (bound : Nat) → ReadM Unit
  | 0 => return ()
  | bound + 1 => do
    if (← peek).isNone then throw ⟨"missing ), unterminated comment", start⟩
    if (← take) == some (.char (chr ')')) then return () else skipRemark start bound

def namedReference : ReadM Opening := do
  let name ← takeGroupName (chr ')')
  let s ← get
  match s.names.lookup name with
  | none => complain ("unknown group name " ++ Text.quoted name) (name.length + 1)
  | some number =>
    if s.opened.contains number then
      complain "cannot refer to an open group" (name.length + 1)
    return .done (some (.reference number))

/-- What a parenthesis at `start` begins, read after it. -/
def opening (start : Nat) : ReadM Opening := do
  if !(← accept (chr '?')) then return .capturing none
  match ← take with
  | none => complain "unexpected end of pattern" 0
  | some (.char ':') => return .plain
  | some (.char '=') => return .ahead false
  | some (.char '!') => return .ahead true
  | some (.char '>') => return .atomic
  | some (.char '#') =>
    skipRemark start ((← get).rest.length + 1)
    return .done none
  | some (.char 'P') =>
    if ← accept (chr '<') then return .capturing (some (← takeGroupName (chr '>')))
    if ← accept (chr '=') then return ← namedReference
    match ← take with
    | none => complain "unexpected end of pattern" 0
    | some token => complain ("unknown extension ?P" ++ token.text) (token.text.length + 2)
  | some token => complain ("unknown extension ?" ++ token.text) (token.text.length + 1)

/-- Items in order, given last first. -/
def sequence (items : List Regex) : Regex :=
  items.foldl (fun after item => .seq item after) .empty

def closeGroup (start : Nat) : ReadM Unit := do
  if !(← accept (chr ')')) then throw ⟨"missing ), unterminated subpattern", start⟩

mutual

def alternatives : (bound : Nat) → ReadM Regex
  | 0 => return .empty
  | bound + 1 => do
    let first ← items bound []
    if ← accept (chr '|') then return .alt first (← alternatives bound) else return first

/-- Items in a row; those already read are given last first. -/
def items : (bound : Nat) → List Regex → ReadM Regex
  | 0, read => return sequence read
  | bound + 1, read => do
    match ← peek with
    | none | some (.char '|') | some (.char ')') => return sequence read
    | some token =>
      let start ← tell
      let _ ← take
      match token with
      | .escape c => items bound ((← escapeItem c) :: read)
      | .char '.' => items bound (.any :: read)
      | .char '^' => items bound (.anchor .lineStart :: read)
      | .char '$' => items bound (.anchor .lineEnd :: read)
      | .char '[' => items bound ((← charSet) :: read)
      | .char '(' => do
        match ← opening start with
        | .done found => items bound (found.toList ++ read)
        | .capturing name =>
          let number ← openGroup name
          let inner ← alternatives bound
          closeGroup start
          modify fun s => { s with opened := s.opened.erase number }
          items bound (.group (some number) inner :: read)
        | .plain =>
          let inner ← alternatives bound
          closeGroup start
          items bound (.group none inner :: read)
        | .ahead negated =>
          let inner ← alternatives bound
          closeGroup start
          items bound (.ahead negated inner :: read)
        | .atomic =>
          let inner ← alternatives bound
          closeGroup start
          items bound (.atomic inner :: read)
      | .char c =>
        if ("*+?\x7b" : Text).contains c then
          match ← repetition? c with
          | some (least, most) => items bound (← repeatLast start least most read)
          | none => items bound (.char c :: read)
        else items bound (.char c :: read)
      | .broken => return sequence read

end

def readAll (bound : Nat) : ReadM Regex := do
  checkNext
  let regex ← alternatives bound
  if (← peek).isSome then complain "unbalanced parenthesis" 0
  return regex

def parse (ignoreCase : Bool) (t : Text) : Except RegexError Pattern := do
  let (regex, s) ← (readAll (2 * t.length + 2)).run ⟨tokens 0 t, t.length, 0, [], []⟩
  return ⟨regex, s.groups, ignoreCase⟩

end TreeShell.Regex
