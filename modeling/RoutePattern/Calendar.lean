import RoutePattern.Text.Utf8
import RoutePattern.Text.Digit

namespace RoutePattern

structure Date where
  year : Nat
  month : Nat
  day : Nat
deriving DecidableEq, Repr

inductive DateFault where
  | malformed (text : Text)
  | monthRange
  | dayRange
  | yearRange (year : Nat)
  | hourRange
  | minuteRange
  | secondRange
  | offsetRange (offset : Text)
deriving DecidableEq, Repr

namespace Date

def isLeap (year : Nat) : Bool := year % 4 == 0 && (year % 100 != 0 || year % 400 == 0)

def daysInMonth (year month : Nat) : Nat :=
  if month = 2 then if isLeap year then 29 else 28
  else if month = 4 ∨ month = 6 ∨ month = 9 ∨ month = 11 then 30
  else 31

def daysBeforeMonth (year month : Nat) : Nat :=
  ((List.range (month - 1)).map fun m => daysInMonth year (m + 1)).foldl (· + ·) 0

def daysBeforeYear (year : Nat) : Int :=
  let y : Int := (year : Int) - 1
  y * 365 + y / 4 - y / 100 + y / 400

/-- The date of a day of a year, counted from one; a day past the end is in the next year. -/
def ofDayOfYear (year day : Nat) : Date :=
  let length := if isLeap year then 366 else 365
  if length < day then
    ⟨year + 1, 1, day - length⟩
  else go 11 year 1 day
where
  go : Nat → Nat → Nat → Nat → Date
    | 0, year, month, day => ⟨year, month, day⟩
    | months + 1, year, month, day =>
      if day ≤ daysInMonth year month then ⟨year, month, day⟩
      else go months year (month + 1) (day - daysInMonth year month)

def firstWeekday (year : Nat) : Nat := ((daysBeforeYear year) % 7).toNat

/-- Whether a year has 53 weeks: it starts on a Thursday, or is a leap year and starts on a
Wednesday. -/
def hasLongWeeks (year : Nat) : Bool :=
  firstWeekday year == 3 || (firstWeekday year == 2 && isLeap year)

def checked (year month day : Nat) : Except DateFault Date :=
  if year < 1 ∨ 9999 < year then .error (.yearRange year)
  else if month < 1 ∨ 12 < month then .error .monthRange
  else if day < 1 ∨ daysInMonth year month < day then .error .dayRange
  else .ok ⟨year, month, day⟩

/-- The date of a weekday of a week. The first week of a year holds its first Thursday, so it may
start in the year before and the last one may end in the year after. -/
def ofWeek (year week weekday : Nat) : Except DateFault Date :=
  let first := firstWeekday year
  -- days from the first of January to the Monday of the first week
  let monday : Int := if first ≤ 3 then -(first : Int) else 7 - first
  let offset := monday + (week - 1) * 7 + (weekday - 1)
  if year = 0 then .error .monthRange
  else if offset < 0 then .ok ⟨year - 1, 12, (32 + offset).toNat⟩
  else
    let date := ofDayOfYear year (offset.toNat + 1)
    checked date.year date.month date.day

def fixedDigits (count : Nat) (text : Text) : Option (Nat × Text) :=
  let digits := text.take count
  if digits.length = count && digits.all Char.isDigit then
    some (Text.digitsToNat 10 digits, text.drop count)
  else none

def dash (wanted : Bool) (text : Text) : Option Text :=
  if wanted then Text.after? ['-'] text else some text

def weekForm (year : Nat) (dashed : Bool) (text : Text) : Option (Except DateFault Date) := do
  let (week, rest) ← fixedDigits 2 text
  let (weekday, _) ←
    if rest.isEmpty then some (1, []) else (dash dashed rest).bind (fixedDigits 1)
  if week < 1 ∨ 53 < week ∨ (week = 53 ∧ !hasLongWeeks year) ∨ weekday < 1 ∨ 7 < weekday then none
  else some (ofWeek year week weekday)

def monthForm (year : Nat) (dashed : Bool) (text : Text) : Option (Except DateFault Date) := do
  let (month, rest) ← fixedDigits 2 text
  let (day, _) ← (dash dashed rest).bind (fixedDigits 2)
  some (checked year month day)

/-- A date by month or by week, with all dashes or none. -/
def form? (text : Text) : Option (Except DateFault Date) := do
  let (year, rest) ← fixedDigits 4 text
  let dashed := rest.head? == some '-'
  let rest := if dashed then rest.drop 1 else rest
  match rest with
  | 'W' :: rest => weekForm year dashed rest
  | _ => monthForm year dashed rest

/-- Reads `YYYY-MM-DD`, `YYYY-Www` or `YYYY-Www-D`, with all dashes or none. Only the length in bytes
tells whether something follows, and of ten bytes without dashes the last ones are not looked at. -/
def read (text : Text) : Except DateFault Date :=
  let size := (Utf8.encode text).length
  let form := if size = 7 ∨ size = 8 ∨ size = 10 then form? text else none
  form.getD (.error (.malformed text))

def dayNumber (d : Date) : Int :=
  daysBeforeYear d.year + daysBeforeMonth d.year d.month + d.day - 1

/-- `YYYY-MM-DD` -/
def write (d : Date) : Text :=
  Text.padded 4 d.year ++ '-' :: Text.padded 2 d.month ++ '-' :: Text.padded 2 d.day

end Date

structure TimeSpan where
  microseconds : Int
deriving DecidableEq, Repr

namespace TimeSpan

/-- The span as whole days, which may be negative, and what is left of a day in seconds and in
microseconds. Parts that are zero are left out. -/
def quoted (d : TimeSpan) : Text :=
  let seconds := Int.fdiv d.microseconds 1000000
  let parts : List (String × Int) :=
    [("days", Int.fdiv seconds 86400), ("seconds", Int.fmod seconds 86400),
      ("microseconds", Int.fmod d.microseconds 1000000)].filter fun part => part.2 != 0
  let text := Text.join ", " (parts.map fun (name, n) => name ++ "=" ++ Text.ofInt n)
  "datetime.timedelta(" ++ (if parts.isEmpty then ['0'] else text) ++ ")"

/-- The span with its sign as hours and minutes, with seconds and a fraction where they are not
zero. -/
def write (d : TimeSpan) : Text :=
  let size := d.microseconds.natAbs
  let seconds := size / 1000000
  (if d.microseconds < 0 then '-' else '+') :: Text.padded 2 (seconds / 3600) ++
    ':' :: Text.padded 2 (seconds / 60 % 60) ++
    (if size % 60000000 = 0 then [] else ':' :: Text.padded 2 (seconds % 60)) ++
    (if size % 1000000 = 0 then [] else '.' :: Text.padded 6 (size % 1000000))

end TimeSpan

structure Clock where
  hour : Nat
  minute : Nat
  second : Nat
  microsecond : Nat
deriving DecidableEq, Repr

namespace Clock

def midnight : Clock := ⟨0, 0, 0, 0⟩

def microseconds (c : Clock) : Nat :=
  ((c.hour * 60 + c.minute) * 60 + c.second) * 1000000 + c.microsecond

/-- Hours, minutes and seconds; a fraction only where it is not zero. -/
def write (c : Clock) : Text :=
  Text.padded 2 c.hour ++ ':' :: Text.padded 2 c.minute ++ ':' :: Text.padded 2 c.second ++
    (if c.microsecond = 0 then [] else '.' :: Text.padded 6 c.microsecond)

/-- A fraction of a second: its first six digits count, and others may follow. -/
def fraction? (text : Text) : Option (Nat × Text) :=
  let digits := text.take 6
  if digits.isEmpty || !digits.all Char.isDigit then none
  else some (Text.digitsToNat 10 ((digits ++ List.replicate 6 '0').take 6),
    (text.drop 6).dropWhile Char.isDigit)

/-- Two digits for each of up to `count` parts, with all separators or none, and a fraction behind
them. With the parts comes the fraction and what was not read. `separated` is known once the first
separator was seen. -/
def parts? (separated : Option Bool) : Nat → Text → Option (List Nat × Nat × Text)
  | 0, text => (fraction? text).map fun (fraction, rest) => ([], fraction, rest)
  | count + 1, text => do
    let (n, rest) ← Date.fixedDigits 2 text
    match rest with
    | c :: d :: more =>
      let separated := separated.getD (c == ':')
      if separated && c == ':' then
        let (others, fraction, after) ← parts? (some separated) count (d :: more)
        some (n :: others, fraction, after)
      else if c == '.' || c == ',' then
        let (fraction, after) ← fraction? (d :: more)
        some ([n], fraction, after)
      else if !separated then
        let (others, fraction, after) ← parts? (some separated) count rest
        some (n :: others, fraction, after)
      else none
    | _ => some ([n], 0, rest)

/-- A time of day, whose parts are not checked, and what was not read. -/
def read? (text : Text) : Option (Clock × Text) :=
  (parts? none 3 text).map fun (ns, fraction, rest) =>
    (⟨ns.head?.getD 0, ns[1]?.getD 0, ns[2]?.getD 0, fraction⟩, rest)

def checked (c : Clock) : Except DateFault Clock :=
  if 23 < c.hour then .error .hourRange
  else if 59 < c.minute then .error .minuteRange
  else if 59 < c.second then .error .secondRange
  else .ok c

end Clock

/-- A date with a time of day, and how far that is ahead of universal time where that is known. -/
structure DateTime where
  date : Date
  clock : Clock
  offset : Option TimeSpan
deriving DecidableEq, Repr

namespace DateTime

/-- Date and time with the given character between them, and the offset. -/
def write (between : Char) (t : DateTime) : Text :=
  t.date.write ++ between :: t.clock.write ++ (t.offset.map TimeSpan.write).getD []

def quotedZone (offset : TimeSpan) : Text :=
  if offset.microseconds = 0 then "datetime.timezone.utc"
  else "datetime.timezone(" ++ offset.quoted ++ ")"

/-- The parts of a date and time; a last microsecond and second are left out where zero. -/
def fields (t : DateTime) : List Text :=
  let first := [t.date.year, t.date.month, t.date.day, t.clock.hour, t.clock.minute]
  let numbers :=
    if t.clock.microsecond ≠ 0 then first ++ [t.clock.second, t.clock.microsecond]
    else if t.clock.second ≠ 0 then first ++ [t.clock.second]
    else first
  numbers.map Text.ofNat ++
    (t.offset.map fun offset => ("tzinfo=" : Text) ++ quotedZone offset).toList

/-- Microseconds since the first day of year one began, in universal time where it is known. -/
def instant (t : DateTime) : Int :=
  let days := t.date.dayNumber
  days * 86400000000 + t.clock.microseconds - (t.offset.map TimeSpan.microseconds).getD 0

/-- Whether two times are the same moment; one with an offset and one without are not. -/
def same (s t : DateTime) : Bool :=
  s.offset.isSome == t.offset.isSome && s.instant == t.instant

/-- How many characters the date in front of a time takes, judged by where its marks are. -/
def dateLength (text : Text) : Nat :=
  let isDash (i : Nat) : Bool := text[i]? == some '-'
  if text.length = 7 then 7
  else if isDash 4 then
    if text[5]? == some 'W' then
      if isDash 8 then if text[10]?.any Char.isDigit then 8 else 10 else 8
    else 10
  else if text[4]? == some 'W' then
    let digits := ((text.drop 7).takeWhile Char.isDigit).length
    if digits < 2 then 7 + digits else if digits % 2 = 1 then 7 else 8
  else 8

def offset? : Text → Option TimeSpan
  | ['Z'] => some ⟨0⟩
  | sign :: text => do
    let (c, rest) ← Clock.read? text
    if !rest.isEmpty || sign == 'Z' then none
    else
      let whole : Int := c.microseconds - c.microsecond
      let size : Int := if whole = 0 then 0 else c.microseconds
      some ⟨if sign == '-' then -size else size⟩
  | [] => none

/-- An offset is less than a day. -/
def checkedOffset (offset : TimeSpan) : Except DateFault TimeSpan :=
  if offset.microseconds.natAbs < 86400000000 then .ok offset
  else .error (.offsetRange offset.quoted)

def timeForm (text : Text) : Option (Clock × Option TimeSpan) :=
  let isMark (c : Char) : Bool := c == '+' || c == '-' || c == 'Z'
  let clock := text.takeWhile fun c => !isMark c
  match text.dropWhile fun c => !isMark c with
  | [] => do
    let (c, rest) ← Clock.read? clock
    if rest.isEmpty then some (c, none) else none
  | mark => do
    let (c, _) ← Clock.read? clock
    let offset ← offset? mark
    some (c, some offset)

/-- Reads a date in any of its forms; any character and a time may follow. -/
def read (text : Text) : Except DateFault DateTime :=
  let size := dateLength text
  let malformed : DateFault := .malformed text
  let time? : Option (Clock × Option TimeSpan) :=
    if text.length ≤ size then some (.midnight, none) else timeForm (text.drop (size + 1))
  match Date.form? (text.take size), time? with
  | some date, some (clock, offset) => do
    let offset ← offset.mapM checkedOffset
    return ⟨← date, ← clock.checked, offset⟩
  | _, _ => .error malformed

end DateTime

end RoutePattern
