import RoutePattern.Route

/-!
Descriptions of routes for interface documents: their parameters, path templates and operations.
-/

namespace RoutePattern

structure ParamDescription where
  key : Key
  inQuery : Bool
  required : Bool
  multiple : Bool
  schema : Value

namespace ParamDescription

def name (d : ParamDescription) : Text := d.key.text

def location (d : ParamDescription) : Text := if d.inQuery then "query" else "path"

def toValue (d : ParamDescription) : Value :=
  .map [(.text "key", d.key.value), (.text "in", .text d.location),
    (.text "required", .bool d.required), (.text "multiple", .bool d.multiple),
    (.text "schema", d.schema)]

/-- A parameter object. A parameter of the path is always required; one that may be left out may be
empty instead. -/
def parameter (d : ParamDescription) : Value :=
  .map ([(.text "name", .text d.name), (.text "in", .text d.location),
      (.text "required", .bool (!d.inQuery || d.required)), (.text "schema", d.schema)] ++
    (if !d.inQuery && !d.required then [(.text "allowEmptyValue", .bool true)] else []) ++
    if d.inQuery && d.multiple then
      [(.text "style", .text "form"), (.text "explode", .bool true)]
    else [])

end ParamDescription

namespace Pattern

variable {σ : Type}

def unnamedInPath : Pattern σ → Nat
  | unnamed => 1
  | modified _ inner => inner.unnamedInPath
  | prefixed _ inner => inner.unnamedInPath
  | concat left right _ => left.unnamedInPath + right.unnamedInPath
  | queryParams previous _ => previous.unnamedInPath
  | withSchema inner _ => inner.unnamedInPath
  | _ => 0

/-- A template in which every capture of the path is its key in braces. Unnamed captures are
numbered within the path alone. -/
def templateBody (first : Nat) : Pattern σ → Text
  | literal text => text
  | param name => '\x7b' :: name ++ ['\x7d']
  | unnamed => '\x7b' :: Text.ofNat first ++ ['\x7d']
  | modified _ inner => inner.templateBody first
  | prefixed lead inner => lead ++ inner.templateBody first
  | concat left right joined =>
    let l := left.templateBody first
    let r := right.templateBody (first + left.unnamedInPath)
    if joined then l ++ r else joinPath [l, r]
  | queryParam _ _ => []
  | queryParams previous _ => previous.templateBody first
  | withSchema inner _ => inner.templateBody first

def template (p : Pattern σ) : Text := orRoot (joinPath [p.templateBody 0])

/-- The first query entry outside of a query block that a template would have to show. -/
def strayInPath? : Pattern σ → Option (Pattern σ)
  | modified _ inner => inner.strayInPath?
  | prefixed _ inner => inner.strayInPath?
  | concat left right _ => left.strayInPath?.or right.strayInPath?
  | queryParam key value => some (queryParam key value)
  | queryParams previous _ => previous.strayInPath?
  | withSchema inner _ => inner.strayInPath?
  | _ => none

end Pattern

namespace Route

def descriptions (r : Route) : List ParamDescription :=
  (r.pattern.captures 0 false).map fun (c, inQuery) =>
    let item :=
      match r.schema.codecFor c.key.value with
      | some codec => codec.openapi
      | none => Codec.textMap [("type", "string")]
    ⟨c.key, inQuery, !c.optional, c.multiple,
      if c.multiple then .map [(.text "type", .text "array"), (.text "items", item)] else item⟩

def parameters (r : Route) : List Value := r.descriptions.map ParamDescription.parameter

def template? (r : Route) : Except Refusal Text :=
  match r.pattern.strayInPath? with
  | none => .ok r.pattern.template
  | some stray => .error stray.strayRefusal

/-- An operation object; an empty summary and an empty list of tags are left out. -/
def operation (id summary : Text) (tags : List Text) (r : Route) : Value :=
  .map ([(.text "operationId", .text id), (.text "parameters", .list r.parameters),
      (.text "responses", .map [(.text "200",
        .map [(.text "description", .text "Successful response")])])] ++
    (if summary.isEmpty then [] else [(.text "summary", .text summary)]) ++
    if tags.isEmpty then [] else [(.text "tags", .list (tags.map .text))])

end Route

end RoutePattern
