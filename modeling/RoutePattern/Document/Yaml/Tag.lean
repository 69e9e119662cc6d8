import RoutePattern.Calendar
import RoutePattern.Number.Whole

/-!
The tags of nodes, which say what kind of value a node is, and the tags of words without quotes.
-/

namespace RoutePattern
namespace Document
namespace Yaml

/-- The kinds of values that nodes are read as, the two words with a meaning as keys, and all
others. -/
inductive Tag where
  | null
  | bool
  | int
  | float
  | timestamp
  | binary
  | text
  | list
  | mapping
  | orderedMapping
  | pairs
  | merge
  | value
  | other (name : Text)
deriving DecidableEq, Repr

namespace Tag

/-- The beginning of the names of the tags that the language has itself. -/
def family : Text := "tag:yaml.org,2002:"

def standard : List (Text × Tag) :=
  [("null", null), ("bool", bool), ("int", int), ("float", float), ("timestamp", timestamp),
    ("binary", binary), ("str", text), ("seq", list), ("map", mapping), ("omap", orderedMapping),
    ("pairs", pairs), ("merge", merge), ("value", value)]

def ofName (name : Text) : Tag :=
  ((standard.find? fun entry => family ++ entry.1 == name).map (·.2)).getD (other name)

def name : Tag → Text
  | other name => name
  | tag => family ++ ((standard.find? fun entry => entry.2 == tag).map (·.1)).getD []

def isCollection : Tag → Bool
  | list => true
  | mapping => true
  | orderedMapping => true
  | pairs => true
  | _ => false

end Tag

namespace Word

def nullWords : List Text := ["", "~", "null", "Null", "NULL"]

def truthWords : List Text :=
  ["yes", "Yes", "YES", "true", "True", "TRUE", "on", "On", "ON",
    "no", "No", "NO", "false", "False", "FALSE", "off", "Off", "OFF"]

def isDigitOrUnderscore (c : Char) : Bool := c.isDigit || c == '_'

def isRun (first rest : Char → Bool) : Text → Bool
  | [] => false
  | c :: cs => first c && cs.all rest

/-- A digit or two, the first of which is below six. -/
def isSixtieth : Text → Bool
  | [a] => a.isDigit
  | [a, b] => '0' ≤ a && a ≤ '5' && b.isDigit
  | _ => false

/-- A first run of digits, and groups below sixty behind colons. -/
def isClockwise (first : Char → Bool) (text : Text) : Bool :=
  match Text.split ':' text with
  | head :: groups => isRun first isDigitOrUnderscore head && groups.all isSixtieth
  | [] => false

/-- A whole number: in base ten, two, eight or sixteen by its mark, or in groups of base sixty. -/
def isInt (word : Text) : Bool :=
  match (Whole.sign word).2 with
  | ['0'] => true
  | '0' :: 'b' :: rest => !rest.isEmpty && rest.all fun c => Whole.isDigitIn 2 c || c == '_'
  | '0' :: 'x' :: rest => !rest.isEmpty && rest.all fun c => Whole.isDigitIn 16 c || c == '_'
  | '0' :: rest => rest.all fun c => Whole.isDigitIn 8 c || c == '_'
  | rest => isClockwise Char.isDigit rest

def isExponent : Text → Bool
  | [] => true
  | e :: mark :: rest =>
    (e == 'e' || e == 'E') && (mark == '+' || mark == '-') && !rest.isEmpty && rest.all Char.isDigit
  | _ => false

/-- A number with a point, which may have an exponent, or be in groups of base sixty. A sign stands in
front of digits only. -/
def isPointed (word : Text) : Bool :=
  match Text.cut '.' word with
  | none => false
  | some (whole, rest) =>
    let unsigned := (Whole.sign whole).2
    let fraction := rest.takeWhile isDigitOrUnderscore
    let behind := rest.dropWhile isDigitOrUnderscore
    if whole.isEmpty then isRun Char.isDigit isDigitOrUnderscore fraction && isExponent behind
    else if unsigned.contains ':' then isClockwise Char.isDigit unsigned && behind.isEmpty
    else isRun Char.isDigit isDigitOrUnderscore unsigned && isExponent behind

def infinities : List Text := [".inf", ".Inf", ".INF"]

def isFloat (word : Text) : Bool :=
  isPointed word || infinities.contains (Whole.sign word).2 ||
    ([".nan", ".NaN", ".NAN"] : List Text).contains word

def shortNumber? : Text → Option (Nat × Text)
  | a :: b :: rest =>
    if !a.isDigit then none
    else if b.isDigit then some (Text.digitsToNat 10 [a, b], rest)
    else some (Text.digitsToNat 10 [a], b :: rest)
  | [a] => if a.isDigit then some (Text.digitsToNat 10 [a], []) else none
  | [] => none

def twoDigits? (mark : Char) : Text → Option (Nat × Text)
  | c :: rest => if c = mark then Date.fixedDigits 2 rest else none
  | [] => none

/-- The parts of a point in time, which are not checked. A zone is told by its offset. -/
structure Moment where
  year : Nat
  month : Nat
  day : Nat
  clock : Option Clock
  offset : Option TimeSpan

def isGap (c : Char) : Bool := c == ' ' || c == '\t'

/-- The zone at the end: `Z`, or an offset in hours that may have minutes. -/
def zone? (text : Text) : Option (Option TimeSpan) :=
  match text.dropWhile isGap with
  | [] => if text.isEmpty then some none else none
  | ['Z'] => some (some ⟨0⟩)
  | sign :: rest => do
    let (hours, rest) ← if sign = '+' ∨ sign = '-' then shortNumber? rest else none
    let minutes ←
      if rest.isEmpty then some 0
      else (twoDigits? ':' rest).bind fun (n, rest) => if rest.isEmpty then some n else none
    let size : Int := (hours * 60 + minutes) * 60000000
    some (some ⟨if sign = '-' then -size else size⟩)

def clock? (text : Text) : Option (Clock × Option TimeSpan) := do
  let behind ←
    match text with
    | 'T' :: rest => some rest
    | 't' :: rest => some rest
    | c :: _ => if isGap c then some (text.dropWhile isGap) else none
    | [] => none
  let (hour, rest) ← shortNumber? behind
  let (minute, rest) ← twoDigits? ':' rest
  let (second, rest) ← twoDigits? ':' rest
  let (digits, rest) :=
    match rest with
    | '.' :: more => (more.takeWhile Char.isDigit, more.dropWhile Char.isDigit)
    | _ => ([], rest)
  let micro := Text.digitsToNat 10 ((digits ++ List.replicate 6 '0').take 6)
  some (⟨hour, minute, second, micro⟩, ← zone? rest)

def moment? (text : Text) : Option Moment := do
  let (year, rest) ← Date.fixedDigits 4 text
  let (month, rest) ← if rest.head? = some '-' then shortNumber? rest.tail else none
  let (day, rest) ← if rest.head? = some '-' then shortNumber? rest.tail else none
  if rest.isEmpty then some ⟨year, month, day, none, none⟩
  else
    let (clock, offset) ← clock? rest
    some ⟨year, month, day, some clock, offset⟩

/-- A date by itself has all its digits. -/
def isTimestamp (word : Text) : Bool :=
  (moment? word).any fun m => m.clock.isSome || word.length == 10

end Word

def Tag.ofWord (word : Text) : Tag :=
  if Word.nullWords.contains word then .null
  else if Word.truthWords.contains word then .bool
  else if Word.isFloat word then .float
  else if Word.isInt word then .int
  else if Word.isTimestamp word then .timestamp
  else if word == ['<', '<'] then .merge
  else if word == ['='] then .value
  else .text

end Yaml
end Document
end RoutePattern
