import TreeShell.Text.Quoted

/-! Points in time as civil dates with a time of day, their written form, and the short form of
long listings. Besides the written form, reading accepts dates by week, dates and times without
separators, times that stop behind the hour or the minute, fractions of any length, and any
character between date and time. What is left of a time in front of its offset is passed over. -/
namespace TreeShell

/-- A civil date and time of day; `offset` is the distance from universal time in microseconds. -/
structure Instant where
  year : Nat
  month : Nat
  day : Nat
  hour : Nat
  minute : Nat
  second : Nat
  micro : Nat
  offset : Option Int
  deriving DecidableEq

namespace Instant

/-- The first moment of the session clock. -/
def origin : Instant := ⟨2024, 1, 1, 0, 0, 0, 0, none⟩

/-- Leap years have a twenty-ninth of February. -/
def isLeap (year : Nat) : Bool :=
  year % 4 == 0 && (year % 100 != 0 || year % 400 == 0)

def daysIn (year month : Nat) : Nat :=
  if month = 2 then if isLeap year then 29 else 28
  else if month = 4 || month = 6 || month = 9 || month = 11 then 30
  else 31

def nextDay (t : Instant) : Instant :=
  if t.day < daysIn t.year t.month then { t with day := t.day + 1 }
  else if t.month < 12 then { t with month := t.month + 1, day := 1 }
  else { t with year := t.year + 1, month := 1, day := 1 }

def addMinutes (t : Instant) (minutes : Nat) : Instant :=
  let total := t.hour * 60 + t.minute + minutes
  let t := (total / 1440).repeat nextDay t
  { t with hour := total % 1440 / 60, minute := total % 60 }

def zeroPadded (width n : Nat) : Text :=
  let digits := Text.ofNat n
  List.replicate (width - digits.length) (chr '0') ++ digits

def renderFraction (micro : Nat) : Text := if micro = 0 then [] else chr '.' :: zeroPadded 6 micro

/-- A distance from universal time: sign, hours and minutes, and the rest unless zero. -/
def renderOffset (offset : Int) : Text :=
  let micro := offset.natAbs % 1000000
  let n := offset.natAbs / 1000000
  (if offset < 0 then chr '-' else chr '+') :: zeroPadded 2 (n / 3600) ++
    chr ':' :: zeroPadded 2 (n / 60 % 60) ++
    (if n % 60 = 0 ∧ micro = 0 then [] else chr ':' :: zeroPadded 2 (n % 60) ++ renderFraction micro)

/-- The written form: date, time, microseconds unless zero, and offset if there is one. -/
def render (t : Instant) : Text :=
  zeroPadded 4 t.year ++ chr '-' :: zeroPadded 2 t.month ++ chr '-' :: zeroPadded 2 t.day ++
    chr 'T' :: zeroPadded 2 t.hour ++ chr ':' :: zeroPadded 2 t.minute ++ chr ':' :: zeroPadded 2 t.second ++
    renderFraction t.micro ++
    match t.offset with
    | some offset => renderOffset offset
    | none => []

def monthNames : List Text :=
  ["Jan", "Feb", "Mar", "Apr", "May", "Jun", "Jul", "Aug", "Sep", "Oct", "Nov", "Dec"]

/-- The form of long listings: month, day, hour and minute. -/
def renderShort (t : Instant) : Text :=
  (monthNames[t.month - 1]?).getD [] ++ chr ' ' :: zeroPadded 2 t.day ++
    chr ' ' :: zeroPadded 2 t.hour ++ chr ':' :: zeroPadded 2 t.minute

def digits? (count : Nat) (t : Text) : Option (Nat × Text) :=
  let digits := t.take count
  if digits.length = count && digits.all CodePoint.isDigit then
    some (digits.foldl (fun n c => n * 10 + (c.toNat - 48)) 0, t.drop count)
  else none

/-- Reads a fraction of a second; digits beyond the sixth are dropped. -/
def fraction? (t : Text) : Option (Nat × Text) := do
  let length := min 6 t.length
  let (_, rest) ← digits? length t
  let (micro, _) ← digits? 6 (t.take length ++ List.replicate (6 - length) (chr '0'))
  return (micro, rest.dropWhile CodePoint.isDigit)

/-- Reads up to `count` numbers of two digits and a fraction, and gives back what is left. The
character behind the first number decides whether all of them have a colon between. A fraction
needs a mark only where another number could stand. -/
def clockFrom? : (count : Nat) → (colons? : Option Bool) → Text → Option (List Nat × Nat × Text)
  | 0, _, t => (fraction? t).map fun (micro, rest) => ([], micro, rest)
  | count + 1, colons?, t => do
    let (n, t) ← digits? 2 t
    match t with
    | c :: d :: t =>
      let colons := colons?.getD (c == ':')
      if c == '.' || c == ',' then
        (fraction? (d :: t)).map fun (micro, rest) => ([n], micro, rest)
      else if colons && c != ':' then none
      else
        (clockFrom? count (some colons) (if colons then d :: t else c :: d :: t)).map
          fun (numbers, micro, rest) => (n :: numbers, micro, rest)
    -- One byte can be left before the offset, whatever it is.
    | rest => if rest.all (·.toNat < 128) then return ([n], 0, rest) else none

/-- Reads hours, and minutes, seconds and microseconds as far as they are written. -/
def clock? (t : Text) : Option (Nat × Nat × Nat × Nat × Text) :=
  (clockFrom? 3 none t).map fun (numbers, micro, rest) =>
    (numbers.headD 0, (numbers[1]?).getD 0, (numbers[2]?).getD 0, micro, rest)

/-- Whether a text ends here; a null character ends it, too. -/
def ends (t : Text) : Bool := t.head?.all (· == chr '\x00')

/-- Reads the distance from universal time. One of less than a second is none. -/
def offset? : Text → Option (Option Int)
  | 'Z' :: t => if ends t then some (some 0) else none
  | sign :: t => do
    let (hour, minute, second, micro, rest) ← clock? t
    let seconds := hour * 3600 + minute * 60 + second
    let n : Int := if seconds = 0 then 0 else seconds * 1000000 + micro
    if ends rest then return some (if sign = '-' then -n else n) else none
  | [] => some none

def daysBefore (year : Nat) : Nat :=
  (year - 1) * 365 + (year - 1) / 4 - (year - 1) / 100 + (year - 1) / 400

/-- The date of a day of a week; the first week of a year is the one with its fourth day in it.
No week of the year zero is in a month. -/
def weekDate? (year week weekday : Nat) : Option (Nat × Nat × Nat) :=
  -- The weekday of the first day of the year, counted from Monday.
  let first := daysBefore year % 7
  let weeks := if first = 3 || (first = 2 && isLeap year) then 53 else 52
  if week = 0 || weeks < week || weekday = 0 || 7 < weekday then none
  else if year = 0 then some (1, 0, 1)
  else
    let start : Int := if first ≤ 3 then -first else 7 - first
    match start + ((week - 1) * 7 + (weekday - 1) : Nat) with
    | .negSucc back => some (year - 1, 12, 31 - back)
    | .ofNat days =>
      let date := days.repeat nextDay ⟨year, 1, 1, 0, 0, 0, 0, none⟩
      some (date.year, date.month, date.day)

/-- Where the date in front of a text ends, by the shape of its beginning. -/
def dateLength? (t : Text) : Option Nat :=
  let isDigitAt (index : Nat) : Bool := (t[index]?).any CodePoint.isDigit
  if t.length = 7 then some 7
  else if t[4]? = some (chr '-') then
    if t[5]? ≠ some (chr 'W') then some 10
    else if t[8]? ≠ some (chr '-') then some 8
    else if t.length = 9 then none
    -- A digit behind two digits and a dash is more likely the hour than a separator.
    else if isDigitAt 10 then some 8
    else some 10
  else if t[4]? = some (chr 'W') then
    -- The digits of a time come in pairs, so that an odd one belongs to the date.
    let digits := ((t.drop 7).takeWhile CodePoint.isDigit).length
    if digits < 2 then some (7 + digits) else some (if digits % 2 = 1 then 7 else 8)
  else some 8

def date? (t : Text) : Option (Nat × Nat × Nat) := do
  let (year, t) ← digits? 4 t
  let dash : Text := if t.head? = some (chr '-') then [chr '-'] else []
  let t := t.drop dash.length
  match t with
  | 'W' :: t =>
    let (week, t) ← digits? 2 t
    if t.isEmpty then weekDate? year week 1
    else
      let (weekday, _) ← digits? 1 (← Text.dropStart? dash t)
      weekDate? year week weekday
  | t =>
    let (month, t) ← digits? 2 t
    let (day, t) ← digits? 2 (← Text.dropStart? dash t)
    if t.isEmpty then return (year, month, day) else none

def beginsOffset (c : CodePoint) : Bool := c == '+' || c == '-' || c == 'Z'

/-- Reads the fields of an instant without regard to their ranges. -/
def fields? (t : Text) : Option Instant := do
  let length ← dateLength? t
  let (year, month, day) ← date? (t.take length)
  match t.drop length with
  | [] => return ⟨year, month, day, 0, 0, 0, 0, none⟩
  | _ :: t =>
    let zone := t.dropWhile fun c => !beginsOffset c
    let (hour, minute, second, micro, rest) ← clock? (t.takeWhile fun c => !beginsOffset c)
    if zone.isEmpty && !ends rest then none
    else return ⟨year, month, day, hour, minute, second, micro, ← offset? zone⟩

/-- A length of time in days, seconds and microseconds, as far as they are not zero. -/
def renderSpan (micro : Int) : Text :=
  let field (name : Text) (n : Int) : List Text := if n = 0 then [] else [name ++ chr '=' :: Text.ofInt n]
  let day : Int := 86400000000
  Text.join ", " (field "days" (micro.fdiv day) ++
    field "seconds" ((micro.fmod day).fdiv 1000000) ++ field "microseconds" (micro.fmod 1000000))

/-- What is wrong with the ranges of the fields, if anything. -/
def rangeTrouble? (t : Instant) : Option Text :=
  if 86400000000 ≤ (t.offset.getD 0).natAbs then
    some ("offset must be a timedelta strictly between -timedelta(hours=24) and " ++
      ("timedelta(hours=24), not datetime.timedelta(" ++ renderSpan (t.offset.getD 0) ++ ")."))
  else if t.year = 0 || 9999 < t.year then
    some ("year " ++ Text.ofNat t.year ++ " is out of range")
  else if t.month = 0 || 12 < t.month then some "month must be in 1..12"
  else if t.day = 0 || daysIn t.year t.month < t.day then some "day is out of range for month"
  else if 23 < t.hour then some "hour must be in 0..23"
  else if 59 < t.minute then some "minute must be in 0..59"
  else if 59 < t.second then some "second must be in 0..59"
  else none

/-- Reads an instant, or says why it cannot be read. -/
def parse (t : Text) : Except Text Instant :=
  match fields? t with
  | none => .error ("Invalid isoformat string: " ++ t.quoted)
  | some instant =>
    match rangeTrouble? instant with
    | some trouble => .error trouble
    | none => .ok instant

end Instant

end TreeShell
