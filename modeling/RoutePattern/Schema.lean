import RoutePattern.Codec
import RoutePattern.Pattern.Capture
import RoutePattern.Renderer
import RoutePattern.Schema.Issue

/-!
Schemas: conversions between the parameters of a route and a value. A struct converts each key with
a codec; a transform maps the value of another schema; the schema of a route puts the schemas that
are attached within its pattern side by side.
-/

namespace RoutePattern

namespace Value

def itemAt (kind : Text) (overrun : Text) (key : Key) (items : List Value) :
    Except Refusal (Option Value) :=
  match key with
  | .name _ => .error (.raised .badType (kind ++ ", not str"))
  | .index n =>
    match items[n]? with
    | some v => .ok (some v)
    | none => .error (.raised .badIndex (overrun ++ " out of range"))

/-- The value of a key. In lists, texts and bytes a key is found where it occurs as an item, and then
taken for an index; other values that are no mappings hold nothing that could be sought. -/
def lookUp (key : Key) : Value → Except Refusal (Option Value)
  | map es => .ok (Table.get? key.value es)
  | list vs =>
    if vs.contains key.value then
      itemAt "list indices must be integers or slices" "list index" key vs
    else .ok none
  | tuple vs =>
    if vs.contains key.value then
      itemAt "tuple indices must be integers or slices" "tuple index" key vs
    else .ok none
  | text t =>
    match key with
    | .name k =>
      if (Text.indexOf k t).isSome then
        .error (.raised .badType "string indices must be integers, not 'str'")
      else .ok none
    | .index _ =>
      .error (.raised .badType "'in <string>' requires string as left operand, not int")
  | bytes bs =>
    match key with
    | .name _ => .error (.raised .badType "a bytes-like object is required, not 'str'")
    | .index n =>
      if 255 < n then .error (.raised .badValue "byte must be in range(0, 256)")
      else if bs.contains (UInt8.ofNat n) then
        itemAt [] "index" key (bs.map fun b => int b.toNat)
      else .ok none
  | v => .error (.raised .badType ("argument of type '" ++ v.qualifiedKind ++ "' is not iterable"))

end Value

structure Conversion where
  decode : Value → Except SchemaFault Value
  encode : Value → Except SchemaFault Value

/-- A part of the schema of a route: a capture of its own, or a schema over some captures. `keys`
pairs every key of the route with the key that the schema knows it by. -/
inductive SchemaItem (σ : Type) where
  | bare (capture : Capture)
  | attached (schema : σ) (captures : List Capture) (keys : Table Key Key)

namespace SchemaItem

variable {σ : Type}

def captures : SchemaItem σ → List Capture
  | bare c => [c]
  | attached _ cs _ => cs

def isAttached : SchemaItem σ → Bool
  | bare _ => false
  | attached .. => true

def toGlobal (keys : Table Key Key) : Table Key Key :=
  Table.ofEntries (keys.map fun (key, inner) => (inner, key))

def localize (params : Value) : Table Key Key → Except Refusal (Table Value Value)
  | [] => .ok []
  | (key, inner) :: rest => do
    let found ← params.lookUp key
    let others ← localize params rest
    return (found.map (inner.value, ·)).toList ++ others

def globalKeys (keys : Table Key Key) : Table Value Value :=
  (toGlobal keys).map fun (inner, key) => (inner.value, key.value)

/-- The parameters of a schema under the keys of the route; other keys stay. -/
def globalize (keys : Table Key Key) (params : Table Value Value) : Table Value Value :=
  Table.ofEntries (params.map fun (key, value) =>
    ((Table.get? key (globalKeys keys)).getD key, value))

/-- Issues under the keys of the route. The head of every path is looked up among the keys, so it has to
be able to be one. -/
def rekeyIssues (keys : Table Key Key) : List Issue → Except Refusal (List Issue)
  | [] => .ok []
  | i :: rest => do
    let _ ← i.path.head?.mapM Value.asKey
    let others ← rekeyIssues keys rest
    return i.rekeyed (globalKeys keys) :: others

end SchemaItem

inductive Schema where
  | struct (name : Text) (fields : Table Value Codec)
  | transform (name : Text) (inner : Schema) (conversion : Conversion)
  | route (items : List (SchemaItem Schema))

namespace Schema

def name : Schema → Text
  | struct n _ => n
  | transform n _ _ => n
  | route _ => "RouteSchema"

def fieldTexts : Table Value Codec → Except Refusal (List Text)
  | [] => .ok []
  | (key, codec) :: rest => do
    let first ← key.quotedOf
    let others ← fieldTexts rest
    return (first ++ ": " ++ codec.name) :: others

def text : Schema → Except Refusal Text
  | struct n fields =>
    (fieldTexts fields).map fun fs => n ++ "(\x7b" ++ Text.join ", " fs ++ "\x7d)"
  | transform n inner _ => inner.text.map fun t => n ++ "(" ++ t ++ ")"
  | route _ => .ok "<RouteSchema>"

def captures : Schema → List Capture
  | route items => items.flatMap SchemaItem.captures
  | _ => []

def isReported (r : Refusal) : Bool :=
  match r.kind with
  | .badValue => true
  | .badType => true
  | .badEncoding => true
  | _ => false

/-- A value with the issues met on the way to it. A refusal ends the way. -/
def Outcome (α : Type) := Except Refusal (α × List Issue)

namespace Outcome

variable {α β : Type}

def bind (x : Outcome α) (f : α → Outcome β) : Outcome β :=
  match x with
  | .error r => .error r
  | .ok (a, issues) =>
    match f a with
    | .error r => .error r
    | .ok (b, more) => .ok (b, issues ++ more)

instance : Monad Outcome where
  pure a := .ok (a, [])
  bind := Outcome.bind

def ofExcept (x : Except Refusal α) : Outcome α := x.map (·, [])

def report (issues : List Issue) : Outcome (Option α) := .ok (none, issues)

end Outcome

/-- A conversion of a single value; a refusal becomes an issue under the path. -/
def convertOne (convert : Value → Except Refusal Value) (label : Text) (path : List Value)
    (v : Value) : Outcome (Option Value) :=
  match convert v with
  | .ok w => pure (some w)
  | .error r =>
    if isReported r then .report [⟨.invalid, path, label ++ r.message⟩] else .error r

/-- A conversion item by item; what is refused is left out. -/
def convertItems (convert : Value → Except Refusal Value) (label : Text) (key : Value)
    (index : Nat) : List Value → Outcome (List Value)
  | [] => pure []
  | v :: rest => do
    let first ← convertOne convert label [key, .int index] v
    let others ← convertItems convert label key (index + 1) rest
    return first.toList ++ others

/-- The value of one key: lists and tuples become lists of converted items. -/
def convertEntry (convert : Value → Except Refusal Value) (label : Text) (key : Value)
    (v : Value) : Outcome (Option Value) :=
  match v.items? with
  | some items => (convertItems convert label key 0 items) >>= fun vs => pure (some (.list vs))
  | none => convertOne convert label [key] v

/-- Converts the declared keys of a mapping. Other keys and absent values stay as they are. -/
def convertFields (fields : Table Value Codec) (convert : Codec → Value → Except Refusal Value)
    (verb : Text) : Table Value Value → Outcome (Table Value Value)
  | [] => pure []
  | (key, v) :: rest => do
    let first ←
      match Table.get? key fields, v with
      | none, _ => pure (some v)
      | some _, .null => pure (some v)
      | some codec, _ =>
        convertEntry (convert codec) ("Cannot " ++ verb ++ " " ++ codec.name ++ ": ") key v
    let others ← convertFields fields convert verb rest
    return (first.map (key, ·)).toList ++ others

def finish (outcome : Outcome (Table Value Value)) : Except SchemaFault Value :=
  match outcome with
  | .ok (entries, []) => .ok (.map entries)
  | .ok (_, issues) => .error (.issues issues)
  | .error r => .error (.refusal r)

/-- The outcome of a function on values: a refusal that concerns the value is an issue. -/
def applied (result : Except SchemaFault Value) : Except SchemaFault Value :=
  match result with
  | .error (.refusal r) =>
    if !isReported r && r.kind != .missingKey then .error (.refusal r)
    else SchemaFault.single .transform [] r.message
  | result => result

def ownEntry (c : Capture) (params : Value) : Outcome (Table Value Value) :=
  .ofExcept ((params.lookUp c.key).map fun found => (found.map (c.key.value, ·)).toList)

/-- The outcome of an attached schema, as far as it concerns the whole route. -/
def attachedOutcome (keys : Table Key Key) (shown : Except Refusal Text)
    (result : Except SchemaFault Value) : Outcome (Table Value Value) :=
  match result with
  | .ok (.map entries) => pure (SchemaItem.globalize keys entries)
  | .ok _ =>
    shown.map fun text =>
      ([], [⟨.type, [],
        text ++ " must decode to a mapping when combined with other parameters"⟩])
  | .error (.issues issues) => (SchemaItem.rekeyIssues keys issues).map ([], ·)
  | .error (.refusal r) => .error r

def rekeyFault (keys : Table Key Key) : SchemaFault → SchemaFault
  | .issues issues =>
    match SchemaItem.rekeyIssues keys issues with
    | .ok rekeyed => .issues rekeyed
    | .error r => .refusal r
  | .refusal r => .refusal r

mutual

def decode (params : Value) : Schema → Except SchemaFault Value
  | struct _ fields =>
    match params with
    | .map entries => finish (convertFields fields Codec.apply "decode" entries)
    | _ => SchemaFault.single .type [] "Expected a parameter mapping"
  | transform _ inner conversion => (inner.decode params).bind fun v => applied (conversion.decode v)
  | route items =>
    match decodeSole params items with
    | some result => result
    | none => finish (decodeItems params items >>= fun es => pure (Table.ofEntries es))

/-- Where a route consists of nothing but one schema, that schema's value is the value. -/
def decodeSole (params : Value) : List (SchemaItem Schema) → Option (Except SchemaFault Value)
  | [.attached schema _ keys] =>
    some (((SchemaItem.localize params keys).mapError .refusal).bind fun own =>
      (schema.decode (.map own)).mapError (rekeyFault keys))
  | _ => none

def decodeItems (params : Value) : List (SchemaItem Schema) → Outcome (Table Value Value)
  | [] => pure []
  | .bare c :: rest => do
    let first ← ownEntry c params
    let others ← decodeItems params rest
    return first ++ others
  | .attached schema _ keys :: rest => do
    let own ← .ofExcept (SchemaItem.localize params keys)
    let first ← attachedOutcome keys schema.text (schema.decode (.map own))
    let others ← decodeItems params rest
    return first ++ others

end

/-- A value as a parameter: text, or a list of texts where the capture repeats. -/
def shapeOf (c : Capture) (v : Value) : Outcome (Option Value) :=
  match v.items? with
  | some items =>
    if c.multiple then
      .ofExcept ((Value.textsOf items).map fun texts => some (.list (texts.map .text)))
    else .report [⟨.type, [c.key.value], "Expected a single value"⟩]
  | none =>
    if c.multiple then .report [⟨.type, [c.key.value], "Expected a list of values"⟩]
    else .ofExcept (v.textOf.map fun text => some (.text text))

def isAbsent : Value → Bool
  | .null => true
  | .text t => t.isEmpty
  | .list vs => vs.isEmpty
  | .tuple vs => vs.isEmpty
  | _ => false

/-- The parameters of captures, with their presence and cardinality checked. -/
def shapes (params : Table Value Value) : List Capture → Outcome (Table Value Value)
  | [] => pure []
  | c :: rest => do
    let v := (Table.get? c.key.value params).getD .null
    let first ←
      if isAbsent v then
        if c.optional then pure none
        else .report [⟨.missing, [c.key.value], "Required parameter is missing"⟩]
      else shapeOf c v
    let others ← shapes params rest
    return (first.map (c.key.value, ·)).toList ++ others

/-- The parameters of a route as texts, or what is wrong with them. Only a mapping has parameters. -/
def checkShape (captures : List Capture) (params : Value) : Except SchemaFault Value :=
  match captures, params with
  | [], _ => .ok (.map [])
  | captures, .map entries =>
    finish (shapes entries captures >>= fun es => pure (Table.ofEntries es))
  | _, v => .error (.refusal (.lacking "get" v.qualifiedKind))

def encodeField (c : Codec) (v : Value) : Except Refusal Value := (c.encode v).map .text

def notMapping {α : Type} (v : Value) : Except SchemaFault α :=
  SchemaFault.single .type [] ("Expected a mapping, got " ++ v.kind)

mutual

def encode (v : Value) : Schema → Except SchemaFault Value
  | struct _ fields =>
    match v with
    | .map entries => finish (convertFields fields encodeField "encode" entries)
    | _ => notMapping v
  | transform _ inner conversion => (applied (conversion.encode v)).bind fun w => inner.encode w
  | route items =>
    let captures := items.flatMap SchemaItem.captures
    match encodeSole v items with
    | some result =>
      result.bind (checkShape captures)
    | none =>
      match v with
      | .map _ =>
        match encodeItems v items with
        | .ok (es, []) => checkShape captures (.ofEntries es)
        | .ok (_, issues) => .error (.issues issues)
        | .error r => .error (.refusal r)
      | _ => notMapping v

/-- Where a route consists of nothing but one schema, that schema encodes the value. -/
def encodeSole (v : Value) : List (SchemaItem Schema) → Option (Except SchemaFault Value)
  | [.attached schema _ keys] =>
    some (((schema.encode v).mapError (rekeyFault keys)).map fun params =>
      .map (SchemaItem.globalize keys (params.entries?.getD [])))
  | _ => none

/-- The entries that the parts of a route encode to, one after the other. -/
def encodeItems (v : Value) : List (SchemaItem Schema) → Outcome (Table Value Value)
  | [] => pure []
  | .bare c :: rest => do
    let first ← ownEntry c v
    let others ← encodeItems v rest
    return first ++ others
  | .attached schema _ keys :: rest => do
    let own ← .ofExcept (SchemaItem.localize v keys)
    let first ← attachedOutcome keys schema.text (schema.encode (.map own))
    let others ← encodeItems v rest
    return first ++ others

end

mutual

def codecFor (key : Value) : Schema → Option Codec
  | struct _ fields => Table.get? key fields
  | transform _ inner _ => inner.codecFor key
  | route items => codecAmong key items

def codecAmong (key : Value) : List (SchemaItem Schema) → Option Codec
  | [] => none
  | .bare _ :: rest => codecAmong key rest
  | .attached schema _ keys :: rest =>
    match keys.find? fun entry => entry.1.value == key with
    | some (_, inner) => schema.codecFor inner.value
    | none => codecAmong key rest

end

/-- The codec for a key of a route. A route without attached schemas does not look at the key. -/
def codecAt (key : Value) (schema : Schema) : Except Refusal (Option Codec) :=
  match schema with
  | route items =>
    if items.any SchemaItem.isAttached then key.asKey.map fun k => schema.codecFor k else .ok none
  | schema => .ok (schema.codecFor key)

/-- Adds a constant entry to decoded mappings, and checks and drops it before encoding. -/
def tagging (tag key : Text) : Conversion where
  decode
    | .map entries => .ok (.map (Table.put (.text key) (.text tag) entries))
    | v => .error (.refusal (.raised .badType ("Cannot tag a " ++ v.kind ++ " value")))
  encode
    | .map entries =>
      let rest : Value := .map (entries.filter fun entry => !(entry.1 == Value.text key))
      match Table.get? (.text key) entries with
      | none => .ok rest
      | some v =>
        if v == .text tag then .ok rest
        else
          match v.quotedOf with
          | .ok shown =>
            .error (.refusal (.raised .badValue
              ("Expected " ++ key ++ "=" ++ Text.quoted tag ++ ", got " ++ shown)))
          | .error r => .error (.refusal r)
    | v => .error (.refusal (.expected "a mapping" v.kind))

def tagged (inner : Schema) (tag key : Text) : Schema :=
  transform ("Tagged[" ++ tag ++ "]") inner (tagging tag key)

end Schema

namespace Pattern

mutual

/-- The parts of the schema of a pattern. `first` is the key of its first unnamed capture. -/
def schemaItems (first : Nat) (optional multiple : Bool) : Pattern Schema → List (SchemaItem Schema)
  | param name => [.bare ⟨.name name, [], optional, multiple⟩]
  | unnamed => [.bare ⟨.index first, [], optional, multiple⟩]
  | modified m inner =>
    inner.schemaItems first (optional || m.allowsNone) (multiple || m.allowsMany)
  | prefixed _ inner => inner.schemaItems first optional multiple
  | concat left right _ =>
    left.schemaItems first optional multiple ++
      right.schemaItems (first + left.unnamedCount) optional multiple
  | queryParams previous entries =>
    previous.schemaItems first optional multiple ++
      entryItems (first + previous.unnamedCount) optional multiple entries
  | withSchema inner schema =>
    let outer := (inner.captures first false).map (·.1)
    let own := (inner.captures 0 false).map (·.1)
    [.attached schema
      (outer.map fun c => ⟨c.key, c.lead, c.optional || optional, c.multiple || multiple⟩)
      (Table.ofEntries (outer.zipWith (fun c d => (c.key, d.key)) own))]
  | _ => []

def entryItems (first : Nat) (optional multiple : Bool) :
    List (Text × Pattern Schema) → List (SchemaItem Schema)
  | [] => []
  | (_, value) :: rest =>
    value.schemaItems first optional multiple ++
      entryItems (first + value.unnamedCount) optional multiple rest

end

/-- The schema of a pattern as a whole. -/
def schema (p : Pattern Schema) : Schema := .route (p.schemaItems 0 false false)

end Pattern

end RoutePattern
