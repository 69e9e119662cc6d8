import RoutePattern.Value.Refusal

/-!
Tagged values: every value spelled by nulls, truth values, small whole numbers, texts, lists and
mappings with one text key. The key of such a mapping is a tag that names the kind of its content.
-/

namespace RoutePattern

namespace Value

def tag (name : String) (content : Value) : Value := map [(text name, content)]

def tagText (name : String) (content : Text) : Value := tag name (text content)

mutual

def tagged : Value → Value
  | int n => if n.natAbs < Nat.pow 2 53 then int n else tagText "$int" (Text.ofInt n)
  | float x => tagText "$float" (FloatText.write x)
  | decimal d => tagText "$decimal" d.write
  | uuid u => tagText "$uuid" u.write
  | date d => tagText "$date" d.write
  | datetime t => tagText "$datetime" (t.write 'T')
  | bytes bs => tagText "$bytes" (bs.flatMap fun b => Text.hex 2 b.toNat)
  | list vs => list (taggedItems vs)
  | tuple vs => tag "$tuple" (list (taggedItems vs))
  | map es => tag "$map" (list (taggedEntries es))
  | v => v

def taggedItems : List Value → List Value
  | [] => []
  | v :: vs => v.tagged :: taggedItems vs

def taggedEntries : List (Value × Value) → List Value
  | [] => []
  | (k, v) :: es => list [k.tagged, v.tagged] :: taggedEntries es

end

/-- The bytes of pairs of hexadecimal digits. `index` is the place of the text in its source. -/
def hexBytes (index : Nat) : Text → Except Refusal (List UInt8)
  | [] => .ok []
  | c :: d :: rest =>
    if Whole.isDigitIn 16 c && Whole.isDigitIn 16 d then
      (hexBytes (index + 2) rest).map (UInt8.ofNat (Text.digitsToNat 16 [c, d]) :: ·)
    else .error (noHexDigit (if Whole.isDigitIn 16 c then index + 1 else index))
  | [c] => .error (noHexDigit (if Whole.isDigitIn 16 c then index + 1 else index))
where
  noHexDigit (index : Nat) : Refusal :=
    .raised .badValue
      ("non-hexadecimal number found in fromhex() arg at position " ++ Text.ofNat index)

def ofTagText (name content : Text) : Except Refusal Value :=
  if name == "$int".toList then ((Whole.read 10 content).mapError .digits).map int
  else if name == "$float".toList then
    match FloatText.read? content with
    | some x => .ok (float x)
    | none => .error (.noNumber content)
  else if name == "$decimal".toList then
    match Decimal.read? content with
    | some d => .ok (decimal d)
    | none => .error (.raised .badValue "[<class 'decimal.ConversionSyntax'>]")
  else if name == "$uuid".toList then ((Uuid.read content).mapError .uuid).map uuid
  else if name == "$date".toList then ((Date.read content).mapError .date).map date
  else if name == "$datetime".toList then ((DateTime.read content).mapError .date).map datetime
  else if name == "$bytes".toList then (hexBytes 0 content).map bytes
  else .error (unknownTag name)
where
  unknownTag (name : Text) : Refusal := .raised .badValue ("unknown tag " ++ name)

mutual

def ofTagged : Value → Except Refusal Value
  | list vs => (ofTaggedItems vs).map list
  | map [(text name, list vs)] =>
    if name == "$tuple".toList then (ofTaggedItems vs).map tuple
    else if name == "$map".toList then (ofTaggedPairs vs).map ofEntries
    else .error (ofTagText.unknownTag name)
  | map [(text name, text content)] => ofTagText name content
  | map _ => .error (ofTagText.unknownTag [])
  | v => .ok v

def ofTaggedItems : List Value → Except Refusal (List Value)
  | [] => .ok []
  | v :: vs => do
    let first ← ofTagged v
    let others ← ofTaggedItems vs
    return first :: others

def ofTaggedPairs : List Value → Except Refusal (List (Value × Value))
  | [] => .ok []
  | list [k, v] :: rest => do
    let key ← ofTagged k
    let value ← ofTagged v
    let key ← key.asKey
    let others ← ofTaggedPairs rest
    return (key, value) :: others
  | _ :: _ => .error (ofTagText.unknownTag "$map")

end

end Value

end RoutePattern
