import RoutePattern.Calendar
import RoutePattern.Number.Decimal
import RoutePattern.Number.FloatText
import RoutePattern.Number.Whole
import RoutePattern.Table
import RoutePattern.Text.Quoted
import RoutePattern.Uuid

/-!
Values: what routes decode to and encode from, and what settings hold. Each has a plain text and a
quoted one, which also shows its kind.
-/

namespace RoutePattern

inductive Value where
  | null
  | bool (b : Bool)
  | int (n : Int)
  | float (x : Float)
  | text (t : Text)
  | decimal (d : Decimal)
  | uuid (u : Uuid)
  | date (d : Date)
  | datetime (t : DateTime)
  | bytes (bs : List UInt8)
  | list (items : List Value)
  | tuple (items : List Value)
  | map (entries : List (Value × Value))

namespace Value

def kind : Value → Text
  | null => "NoneType"
  | bool _ => "bool"
  | int _ => "int"
  | float _ => "float"
  | text _ => "str"
  | decimal _ => "Decimal"
  | uuid _ => "UUID"
  | date _ => "date"
  | datetime _ => "datetime"
  | bytes _ => "bytes"
  | list _ => "list"
  | tuple _ => "tuple"
  | map _ => "dict"

/-- The name of the kind of a value, with the family that the kind belongs to. -/
def qualifiedKind : Value → Text
  | decimal _ => "decimal.Decimal"
  | date _ => "datetime.date"
  | datetime _ => "datetime.datetime"
  | v => v.kind

def items? : Value → Option (List Value)
  | list vs => some vs
  | tuple vs => some vs
  | _ => none

def entries? : Value → Option (List (Value × Value))
  | map es => some es
  | _ => none

/-- A coefficient and an exponent of ten; the coefficient is no multiple of ten, or both are zero. -/
def strippedTens (coefficient : Int) (exponent : Int) : Int × Int :=
  if coefficient = 0 then (0, 0) else go (Text.ofNat coefficient.natAbs).length coefficient exponent
where
  go : Nat → Int → Int → Int × Int
    | 0, c, e => (c, e)
    | tries + 1, c, e => if c % 10 = 0 then go tries (c / 10) (e + 1) else (c, e)

/-- A finite number as coefficient and exponent of ten, the same for equal numbers of any kind. -/
def number? : Value → Option (Int × Int)
  | bool b => some (if b then 1 else 0, 0)
  | int n => some (strippedTens n 0)
  | float x =>
    (Binary.ofFloat? x).map fun b =>
      let n : Int := if b.negative then -(b.mantissa : Int) else b.mantissa
      if 0 ≤ b.exponent then strippedTens (n * (Nat.pow 2 b.exponent.toNat : Int)) 0
      else strippedTens (n * (Nat.pow 5 b.exponent.natAbs : Int)) b.exponent
  | decimal (.finite negative c e) => some (strippedTens (if negative then -(c : Int) else c) e)
  | _ => none

def infinity? : Value → Option Bool
  | float x => if x.isInf then some (x < 0) else none
  | decimal (.infinite negative) => some negative
  | _ => none

mutual

/-- Equality of values as keys: numbers are equal by their value whatever their kind, and so are the
truth values to one and zero. Lists and mappings are no keys and equal nothing. -/
def same : Value → Value → Bool
  | null, null => true
  | text s, text t => s == t
  | uuid u, uuid v => u == v
  | date d, date e => d == e
  | datetime s, datetime t => s.same t
  | bytes bs, bytes cs => bs == cs
  | tuple vs, tuple ws => sameItems vs ws
  | v, w =>
    match v.number?, w.number? with
    | some m, some n => m == n
    | none, none => v.infinity?.isSome && v.infinity? == w.infinity?
    | _, _ => false

def sameItems : List Value → List Value → Bool
  | [], [] => true
  | v :: vs, w :: ws => v.same w && sameItems vs ws
  | _, _ => false

end

instance : BEq Value := ⟨same⟩

mutual

/-- The first list or mapping in a value that keeps it from being a key. -/
def unkeyable? : Value → Option Value
  | list vs => some (list vs)
  | map es => some (map es)
  | tuple vs => unkeyableItem? vs
  | _ => none

def unkeyableItem? : List Value → Option Value
  | [] => none
  | v :: vs => v.unkeyable?.or (unkeyableItem? vs)

end

/-- Whether one number is less than another one, whatever their kinds. -/
def less? (v w : Value) : Option Bool :=
  match v.number?, w.number? with
  | some (m, e), some (n, f) =>
    let least := min e f
    let scaled (c place : Int) : Int := c * (Nat.pow 10 (place - least).toNat : Int)
    some (scaled m e < scaled n f)
  | some _, none => w.infinity?.map (!·)
  | none, some _ => v.infinity?
  | none, none => v.infinity?.bind fun negative => w.infinity?.map (negative && !·)

def toFloat? : Value → Option Float
  | bool b => some (if b then 1.0 else 0.0)
  | int n => some (Float.ofInt n)
  | float x => some x
  | decimal d => FloatText.read? d.write
  | _ => none

def floatBelow (x : Float) : Float :=
  Float.ofBits (if x < 0 then x.toBits + 1 else x.toBits - 1)

/-- The greatest float that is not above a number: the floats beyond the one are those beyond the
other. -/
def bound? (v : Value) : Option Float :=
  v.toFloat?.map fun x => if v.less? (float x) = some true then floatBelow x else x

/-- Whether a value counts as true: it is not null, zero or empty. -/
def isTruthy : Value → Bool
  | null => false
  | bool b => b
  | int n => n != 0
  | float x => x != 0.0
  | text t => !t.isEmpty
  | decimal (.finite _ coefficient _) => coefficient != 0
  | bytes bs => !bs.isEmpty
  | list vs => !vs.isEmpty
  | tuple vs => !vs.isEmpty
  | map es => !es.isEmpty
  | _ => true

def get? (v key : Value) : Option Value := v.entries?.bind (Table.get? key)

/-- The mapping that entries make when they are put in one after the other. -/
def ofEntries (entries : List (Value × Value)) : Value := map (Table.ofEntries entries)

def bracketed (opening closing : Text) (texts : List Text) : Text :=
  opening ++ Text.join ", " texts ++ closing

/-- A tuple of one item has a comma behind it. -/
def tupleText : List Text → Text
  | [t] => "(" ++ t ++ ",)"
  | ts => bracketed "(" ")" ts

mutual

/-- The quoted text of a value. Only a number with too many digits has none. -/
def quoted : Value → Except Whole.Fault Text
  | null => .ok "None"
  | bool b => .ok (if b then "True" else "False")
  | int n => Whole.write n
  | float x => .ok (FloatText.write x)
  | text t => .ok (Text.quoted t)
  | decimal d => .ok ("Decimal('" ++ d.write ++ "')")
  | uuid u => .ok ("UUID('" ++ u.write ++ "')")
  | date d => .ok (bracketed "datetime.date(" ")" ([d.year, d.month, d.day].map Text.ofNat))
  | datetime t => .ok (bracketed "datetime.datetime(" ")" t.fields)
  | bytes bs => .ok (Text.quotedBytes bs)
  | list vs => (quotedItems vs).map (bracketed "[" "]")
  | tuple vs => (quotedItems vs).map tupleText
  | map es => (quotedEntries es).map (bracketed "\x7b" "\x7d")

def quotedItems : List Value → Except Whole.Fault (List Text)
  | [] => .ok []
  | v :: vs => do
    let first ← v.quoted
    let others ← quotedItems vs
    return first :: others

def quotedEntries : List (Value × Value) → Except Whole.Fault (List Text)
  | [] => .ok []
  | (k, v) :: es => do
    let key ← k.quoted
    let value ← v.quoted
    let others ← quotedEntries es
    return (key ++ ": " ++ value) :: others

end

/-- The plain text of a value: text is itself, all else is as in quoted text, without its kind. -/
def write : Value → Except Whole.Fault Text
  | text t => .ok t
  | decimal d => .ok d.write
  | uuid u => .ok u.write
  | date d => .ok d.write
  | datetime t => .ok (t.write ' ')
  | v => v.quoted

end Value

end RoutePattern
