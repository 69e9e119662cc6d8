import RoutePattern.Document.Yaml.Node
import RoutePattern.Text.Base64
import RoutePattern.Text.Letter
import RoutePattern.Value.Heap

/-!
The values that nodes stand for. A node inside of another one is looked at after all that stand less
deep, so of several problems the one that is least deep counts, and of those the first.
-/

namespace RoutePattern
namespace Document
namespace Yaml

namespace Scalar

def withoutUnderscores (text : Text) : Text := text.filter (· != '_')

def noFirst : Refusal := .raised .badIndex "string index out of range"

def signed (text : Text) : Except Refusal (Bool × Text) :=
  if text.isEmpty then .error noFirst else .ok (Whole.sign text)

def whole (base : Nat) (text : Text) : Except Refusal Int :=
  (Whole.read base text).mapError .digits

def magnitude (word : Text) : Except Refusal Int :=
  match word with
  | [] => .error noFirst
  | ['0'] => .ok 0
  | '0' :: 'b' :: rest => whole 2 rest
  | '0' :: 'x' :: rest => whole 16 rest
  | '0' :: _ => whole 8 word
  | _ => do
    let groups ← (Text.split ':' word).mapM (whole 10)
    return groups.foldl (fun n group => n * 60 + group) 0

def int (text : Text) : Except Refusal Int := do
  let (negative, word) ← signed (withoutUnderscores text)
  let n ← magnitude word
  return if negative then -n else n

def number (text : Text) : Except Refusal Float :=
  match FloatText.read? text with
  | some x => .ok x
  | none => .error (.noNumber text)

/-- The number of an unsigned word in small letters. Of groups the last one counts first. -/
def floatMagnitude (word : Text) : Except Refusal Float :=
  if word == ".inf".toList then .ok (1.0 / 0.0)
  else if word.contains ':' then do
    let groups ← (Text.split ':' word).mapM number
    let (sum, _) := groups.reverse.foldl
      (fun (sum, unit) group => (sum + group * FloatText.ofDecimal unit 0, unit * 60)) (0.0, 1)
    return sum
  else number word

def float (text : Text) : Except Refusal Float := do
  let (negative, word) ← signed (Text.lower (withoutUnderscores text))
  if word == ".nan".toList then return 0.0 / 0.0
  else
    let x ← floatMagnitude word
    return if negative then -x else x

def truths : Table Text Bool :=
  [("yes".toList, true), ("no".toList, false), ("true".toList, true), ("false".toList, false),
    ("on".toList, true), ("off".toList, false)]

def bool (text : Text) : Except Refusal Bool :=
  let word := Text.lower text
  match Table.get? word truths with
  | some b => .ok b
  | none => .error (.raised .missingKey (Text.quoted word))

/-- A date, or a date with a time of day. The offset is checked first. -/
def timestamp (text : Text) : Except Refusal Value :=
  match Word.moment? text with
  | none => .error (.raised .unsupported "'NoneType' object has no attribute 'groupdict'")
  | some m => do
    let checked (x : Except DateFault Value) : Except Refusal Value := x.mapError .date
    checked do
      let offset ← m.offset.mapM DateTime.checkedOffset
      let date ← Date.checked m.year m.month m.day
      match m.clock with
      | none => return .date date
      | some clock => return .datetime ⟨date, ← clock.checked, offset⟩

end Scalar

/-- Why a node stands for no value, and how deep in the document that was found. -/
structure Trouble where
  depth : Nat
  failure : Failure

abbrev Meaning (α : Type) := Except Trouble α

namespace Meaning

/-- Of two troubles the less deep one, of equals the first. -/
def worse (first second : Trouble) : Trouble := if second.depth < first.depth then second else first

def both {α β : Type} : Meaning α → Meaning β → Meaning (α × β)
  | .ok a, .ok b => .ok (a, b)
  | .error s, .error t => .error (worse s t)
  | .error s, .ok _ => .error s
  | .ok _, .error t => .error t

def all {α : Type} : List (Meaning α) → Meaning (List α)
  | [] => .ok []
  | m :: ms => (both m (all ms)).map fun (a, as) => a :: as

end Meaning

namespace Node

/-- The text of a scalar, or of the value behind the first equals sign of a mapping. -/
def scalarText : Node → Result Text
  | scalar _ _ text => .ok text
  | list _ place _ => fail (.plain (.wrongNode "a scalar node" "sequence") place)
  | mapping _ place entries => ofEntries place entries
  | around place => fail (.plain .recursive place)
where
  ofEntries (place : Place) : List (Node × Node) → Result Text
    | [] => fail (.plain (.wrongNode "a scalar node" "mapping") place)
    | (key, value) :: rest => if key.tag = .value then scalarText value else ofEntries place rest

def scalarValue (n : Node) : Result Value := do
  let text ← n.scalarText
  let of (x : Except Refusal Value) : Result Value := x.mapError .refusal
  match n.tag with
  | .null => return .null
  | .bool => of ((Scalar.bool text).map .bool)
  | .int => of ((Scalar.int text).map .int)
  | .float => of ((Scalar.float text).map .float)
  | .timestamp => of (Scalar.timestamp text)
  | .binary =>
    match Text.beyondAscii? text, Base64.decodeLoosely text with
    | some detail, _ => fail (.plain (.noAscii detail) n.place)
    | none, .ok bytes => return .bytes bytes
    | none, .error detail => fail (.plain (.badBase64 detail) n.place)
  | _ => return .text text

def isScalarTag : Tag → Bool
  | .merge => false
  | .value => false
  | .other _ => false
  | tag => !tag.isCollection

/-- The entries of a mapping with those that it takes over. They come first, so its own ones override
them; of several mappings that are taken over at once the first one counts most. -/
def flattened : Nat → Place → List (Node × Node) → Result (List (Node × Node))
  | 0, _, entries => .ok entries
  | fuel + 1, place, entries => do
    let isMerge (entry : Node × Node) : Bool := decide (entry.1.tag = .merge)
    let taken ← (entries.filter isMerge).mapM fun (_, source) => do
      match source with
      | mapping _ place inner => flattened fuel place inner
      | list _ _ items =>
        let parts ← items.mapM fun item =>
          match item with
          | mapping _ place inner => flattened fuel place inner
          | other => fail (.during .mapping place (.badMerge "a mapping" other.name) other.place)
        return parts.reverse.flatten
      | other =>
        fail (.during .mapping place (.badMerge "a mapping or list of mappings" other.name)
          other.place)
    return taken.flatten ++ entries.filter (!isMerge ·)

def singleEntries (activity : Activity) (place : Place) : Node → Result (List (Node × Node))
  | list _ _ items => items.mapM fun item =>
    match item with
    | mapping _ _ [entry] => .ok entry
    | mapping _ start entries => fail (.during activity place (.wrongCount entries.length) start)
    | other =>
      fail (.during activity place (.wrongNode "a mapping of length 1" other.name) other.place)
  | other => fail (.during activity place (.wrongNode "a sequence" other.name) other.place)

/-- A key as it is taken: an equals sign by itself is a text like any other. -/
def asKey : Node → Node
  | scalar .value place text => scalar .text place text
  | n => n

def scalarAt (depth : Nat) (n : Node) : Meaning Value :=
  let found (r : Result Value) : Meaning Value := r.mapError (⟨depth, ·⟩)
  if isScalarTag n.tag then found n.scalarValue
  else if n matches around _ then found (fail (.plain .recursive n.place))
  else found (fail (.plain (.unknownTag n.tag.name) n.place))

/-- What a node stands for, with the mappings in it. A mapping has the place of its node as its number, so
it is the same one wherever an alias stands for the node. -/
structure Drawn where
  datum : Datum
  objects : List (Nat × Table Value Datum)

namespace Drawn

def plain (v : Value) : Drawn := ⟨.plain v, []⟩

def join (make : List Datum → Datum) (parts : List Drawn) : Drawn :=
  ⟨make (parts.map datum), parts.flatMap objects⟩

def pair (parts : Drawn × Drawn) : Drawn := join .tuple [parts.1, parts.2]

def mapping (place : Place) (entries : List (Value × Drawn)) : Drawn :=
  ⟨.object place.index,
    (place.index, Table.ofEntries (entries.map fun e => (e.1, e.2.datum))) ::
      entries.flatMap fun e => e.2.objects⟩

end Drawn

/-- What a node stands for that was found at a depth. What is in lists and mappings is found one
deeper. -/
def drawnAt : Nat → Nat → Node → Meaning Drawn
  | 0, depth, n => .error ⟨depth, .fault (.plain .deepNesting n.place)⟩
  | fuel + 1, depth, n =>
    let found {α : Type} (r : Result α) : Meaning α := r.mapError (⟨depth + 1, ·⟩)
    let inner (n : Node) : Meaning Drawn := drawnAt fuel (depth + 1) n
    let pairOf (entry : Node × Node) : Meaning Drawn :=
      (Meaning.both (inner entry.1) (inner entry.2)).map Drawn.pair
    let tuples (activity : Activity) : Meaning Drawn := do
      let entries ← found (singleEntries activity n.place n)
      (Meaning.all (entries.map pairOf)).map (Drawn.join .list)
    match n.tag with
    | .list =>
      match n with
      | list _ _ items => (Meaning.all (items.map inner)).map (Drawn.join .list)
      | other => found (fail (.plain (.wrongNode "a sequence node" other.name) other.place))
    | .mapping =>
      match n with
      | mapping _ place entries => do
        let entries ← found (flattened fuel place entries)
        let values := entries.map fun (key, v) =>
          let key := key.asKey
          let keyValue : Meaning Value :=
            if key.tag.isCollection then
              .error ⟨depth + 1, .fault (.during .mapping place .unhashable key.place)⟩
            else scalarAt (depth + 1) key
          Meaning.both keyValue (inner v)
        (Meaning.all values).map (Drawn.mapping place)
      | other => found (fail (.plain (.wrongNode "a mapping node" other.name) other.place))
    | .orderedMapping => tuples .orderedMapping
    | .pairs => tuples .pairs
    | _ => (scalarAt depth n).map .plain

end Node

end Yaml
end Document
end RoutePattern
