import RoutePattern.Schema

/-!
Patterns laid open: as nested mappings for other programs, and on one line with every part named.
-/

namespace RoutePattern
namespace Modifier

def name : Modifier → Text
  | optional => "optional"
  | zeroOrMore => "zero_or_more"
  | oneOrMore => "one_or_more"

def ofName? (name : Text) : Option Modifier :=
  [optional, zeroOrMore, oneOrMore].find? fun m => m.name == name

def title : Modifier → Text
  | optional => "OptionalNode"
  | zeroOrMore => "ZeroOrMoreNode"
  | oneOrMore => "OneOrMoreNode"

end Modifier

namespace Pattern

def record (kind : Text) (fields : List (String × Value)) : Value :=
  .map ((.text "kind", .text kind) :: fields.map fun (key, v) => (.text key, v))

mutual

/-- The pattern as nested mappings; of a schema only its name is kept. -/
def toValue : Pattern Schema → Value
  | literal text => record "literal" [("text", .text text)]
  | param name => record "param" [("name", .text name)]
  | unnamed => record "unnamed_param" []
  | modified m inner => record m.name [("inner", inner.toValue)]
  | prefixed lead inner => record "prefix" [("text", .text lead), ("inner", inner.toValue)]
  | concat left right joined =>
    record "concat" [("left", left.toValue), ("right", right.toValue), ("joined", .bool joined)]
  | queryParam key value => record "query_param" [("key", .text key), ("inner", value.toValue)]
  | queryParams previous entries =>
    record "query_params"
      [("previous", previous.toValue), ("params", .list (entryValues entries))]
  | withSchema inner schema =>
    record "with_schema" [("inner", inner.toValue), ("schema", .text schema.name)]

def entryValues : List (Text × Pattern Schema) → List Value
  | [] => []
  | (key, value) :: rest =>
    record "query_param" [("key", .text key), ("inner", value.toValue)] :: entryValues rest

end

def titled (title : Text) (fields : List (String × Text)) : Text :=
  title ++ "(" ++ Text.join ", " (fields.map fun (key, t) => key ++ "=" ++ t) ++ ")"

mutual

def listing : Pattern Schema → Except Refusal Text
  | literal text => .ok (titled "LiteralNode" [("text", Text.quoted text)])
  | param name => .ok (titled "ParamNode" [("name", Text.quoted name)])
  | unnamed => .ok (titled "UnnamedParamNode" [])
  | modified m inner => inner.listing.map fun t => titled m.title [("inner", t)]
  | prefixed lead inner =>
    inner.listing.map fun t => titled "PrefixNode" [("text", Text.quoted lead), ("inner", t)]
  | concat left right joined => do
    let l ← left.listing
    let r ← right.listing
    return titled "ConcatNode"
      [("left", l), ("right", r), ("joined", if joined then "True" else "False")]
  | queryParam key value =>
    value.listing.map fun t => titled "QueryParamNode" [("key", Text.quoted key), ("inner", t)]
  | queryParams previous entries => do
    let p ← previous.listing
    let es ← entryListings entries
    return titled "QueryParamsNode" [("previous", p), ("params", Value.tupleText es)]
  | withSchema inner schema => do
    let t ← inner.listing
    let s ← schema.text
    return titled "WithSchemaNode" [("inner", t), ("schema", s)]

def entryListings : List (Text × Pattern Schema) → Except Refusal (List Text)
  | [] => .ok []
  | (key, value) :: rest => do
    let t ← value.listing
    let others ← entryListings rest
    return titled "QueryParamNode" [("key", Text.quoted key), ("inner", t)] :: others

end

/-- The refusal of a query entry that stands where it cannot be written. -/
def strayRefusal (stray : Pattern Schema) : Refusal :=
  match stray.listing with
  | .ok text => .raised .badType ("Unknown pattern node: " ++ text)
  | .error refusal => refusal

def path? (p : Pattern Schema) : Except Refusal Text :=
  match p.strayParam? with
  | none => .ok p.path
  | some stray => .error stray.strayRefusal

end Pattern

end RoutePattern
