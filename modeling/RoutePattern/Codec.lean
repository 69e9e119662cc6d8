import RoutePattern.Text.Base64
import RoutePattern.Text.Letter
import RoutePattern.Text.Utf8
import RoutePattern.Value.Refusal

namespace RoutePattern

/-- A conversion with its description for interface documents. `decodeValue` says what becomes of a
value that is no text. -/
structure Codec where
  name : Text
  decode : Text → Except Refusal Value
  decodeValue : Value → Except Refusal Value
  encode : Value → Except Refusal Text
  openapi : Value

namespace Codec

def wrongKind {α : Type} (wanted : String) (v : Value) : Except Refusal α :=
  .error (.expected wanted v.kind)

/-- A value in place of text whose form is checked. -/
def onlyText : Value → Except Refusal Value
  | .bytes _ => .error (.raised .badType "cannot use a string pattern on a bytes-like object")
  | v => .error (.notText v.qualifiedKind)

def lacks (operation : String) (v : Value) : Except Refusal Value :=
  .error (.lacking operation v.qualifiedKind)

def textMap (entries : List (String × String)) : Value :=
  .map (entries.map fun (k, v) => (.text k, .text v))

def encodeText : Value → Except Refusal Text
  | .text t => .ok t
  | v => wrongKind "str" v

/-- An optional sign and digits of any script. -/
def isInteger (text : Text) : Bool :=
  let digits := (Whole.sign text).2
  !digits.isEmpty && digits.all Text.isDecimalDigit

def decodeInt (raw : Text) : Except Refusal Value :=
  if isInteger raw then ((Whole.read 10 raw).mapError .digits).map .int
  else .error (.invalid "integer" raw)

def encodeInt : Value → Except Refusal Text
  | .int n => (Whole.write n).mapError .digits
  | v => wrongKind "int" v

def finiteFloat (raw : Text) (x : Float) : Except Refusal Value :=
  if x.isFinite then .ok (.float x) else .error (.invalid "number" raw)

def decodeFloat (raw : Text) : Except Refusal Value :=
  match FloatText.read? raw with
  | some x => finiteFloat raw x
  | none => .error (.noNumber raw)

def charsOfBytes (bs : List UInt8) : Text := bs.map fun b => Char.ofNat b.toNat

def decodeFloatValue : Value → Except Refusal Value
  | .bool b => .ok (.float (if b then 1.0 else 0.0))
  | .int n =>
    let x := Float.ofInt n
    if x.isFinite then .ok (.float x)
    else .error (.raised .badValue "int too large to convert to float")
  | .float x => finiteFloat (FloatText.write x) x
  | .decimal (.undefined _ true _) =>
    .error (.raised .badValue "cannot convert signaling NaN to float")
  | .decimal d => finiteFloat d.write ((FloatText.read? d.write).getD (0.0 / 0.0))
  | .bytes bs =>
    match if bs.all (· < 0x80) then FloatText.read? (charsOfBytes bs) else none with
    | some x => finiteFloat (Text.quotedBytes bs) x
    | none =>
      .error (.raised .badValue ("could not convert string to float: " ++ Text.quotedBytes bs))
  | v =>
    .error (.raised .badType
      ("float() argument must be a string or a real number, not '" ++ v.qualifiedKind ++ "'"))

def encodeFloat : Value → Except Refusal Text
  | .float x => .ok (FloatText.write x)
  | .int n => (Whole.write n).mapError .digits
  | v => wrongKind "number" v

def decodeDecimal (raw : Text) : Except Refusal Value :=
  match Decimal.read? raw with
  | some d => if d.isFinite then .ok (.decimal d) else .error (.invalid "decimal" raw)
  | none => .error (.invalid "decimal" raw)

def decimalDigit : Value → Except Refusal Nat
  | .bool b => .ok (if b then 1 else 0)
  | .int n =>
    if tooLong n then .error (.raised .badValue "Python int too large to convert to C long")
    else if n < 0 || 9 < n then .error noDigits
    else .ok n.toNat
  | _ => .error noDigits
where
  noDigits : Refusal := .raised .badValue "coefficient must be a tuple of digits"
  tooLong (n : Int) : Bool := n < -(Nat.pow 2 63 : Int) || (Nat.pow 2 63 : Int) ≤ n

def decimalSign : Value → Except Refusal Bool
  | .bool b => .ok b
  | .int n =>
    if decimalDigit.tooLong n then
      .error (.raised .badValue "Python int too large to convert to C long")
    else if n = 0 || n = 1 then .ok (n = 1)
    else .error noSign
  | _ => .error noSign
where
  noSign : Refusal := .raised .badValue "sign must be an integer with the value 0 or 1"

/-- The exponent among the parts of a decimal; none where a letter says that it is no finite number. -/
def decimalExponent : Value → Except Refusal (Option Int)
  | .text t =>
    if ["F".toList, "n".toList, "N".toList].contains t then .ok none
    else
      .error (.raised .badValue
        "string argument in the third position must be 'F', 'n' or 'N'")
  | .bool b => .ok (some (if b then 1 else 0))
  | .int n =>
    if decimalDigit.tooLong n then
      .error (.raised .badValue "Python int too large to convert to C ssize_t")
    else .ok (some n)
  | _ => .error (.raised .badValue "exponent must be an integer")

/-- A decimal from its parts: sign, digits and exponent; none where they make no finite number. -/
def decimalOfParts : List Value → Except Refusal (Option Decimal)
  | [sign, digits, exponent] => do
    let negative ← decimalSign sign
    let exponent ← decimalExponent exponent
    let items ← (digits.items?.map Except.ok).getD (.error decimalDigit.noDigits)
    let coefficient := (← items.mapM decimalDigit).foldl (fun n digit => n * 10 + digit) 0
    return exponent.bind fun e =>
      if Decimal.inRange coefficient e then some (.finite negative coefficient e) else none
  | _ => .error (.raised .badValue "argument must be a sequence of length 3")

def decodeDecimalParts (v : Value) (parts : List Value) : Except Refusal Value := do
  match ← decimalOfParts parts with
  | some d => return .decimal d
  | none => .error (.invalid "decimal" (← v.textOf))

def decodeDecimalValue : Value → Except Refusal Value
  | .bool b => .ok (.decimal (.finite false (if b then 1 else 0) 0))
  | .int n => .ok (.decimal (.finite (n < 0) n.natAbs 0))
  | .float x =>
    match Binary.ofFloat? x with
    | some b => .ok (.decimal (Decimal.ofBinary b))
    | none => .error (.invalid "decimal" (FloatText.write x))
  | .decimal d =>
    if d.isFinite then .ok (.decimal d) else .error (.invalid "decimal" d.write)
  | .list parts => decodeDecimalParts (.list parts) parts
  | .tuple parts => decodeDecimalParts (.tuple parts) parts
  | v =>
    .error (.raised .badType
      ("conversion from " ++ v.qualifiedKind ++ " to Decimal is not supported"))

def encodeDecimal : Value → Except Refusal Text
  | .decimal d => .ok d.write
  | .int n => (Whole.write n).mapError .digits
  | v => wrongKind "Decimal" v

def trueWords : List Text := ["true".toList, "1".toList, "yes".toList, "on".toList]

def falseWords : List Text := ["false".toList, "0".toList, "no".toList, "off".toList]

def decodeBool (raw : Text) : Except Refusal Value :=
  let word := Text.lowerAscii raw
  if trueWords.contains word then .ok (.bool true)
  else if falseWords.contains word then .ok (.bool false)
  else .error (.invalid "boolean value" raw)

def decodeBoolValue : Value → Except Refusal Value
  | .bytes bs => .error (.invalid "boolean value" (Text.quotedBytes bs))
  | v => lacks "lower" v

def encodeBool : Value → Except Refusal Text
  | .bool b => .ok (if b then "true" else "false")
  | v => wrongKind "bool" v

def readUuid (raw : Text) : Except Refusal Uuid := (Uuid.read raw).mapError .uuid

def decodeUuid (raw : Text) : Except Refusal Value := (readUuid raw).map .uuid

def decodeUuidValue : Value → Except Refusal Value
  | .null =>
    .error (.raised .badType
      "one of the hex, bytes, bytes_le, fields, or int arguments must be given")
  | .bytes _ => .error (.raised .badType "a bytes-like object is required, not 'str'")
  | .date _ => .error (.raised .badType "'str' object cannot be interpreted as an integer")
  | .datetime _ => .error (.raised .badType "'str' object cannot be interpreted as an integer")
  | v => lacks "replace" v

/-- Any value whose text reads as an identifier is taken. -/
def encodeUuid : Value → Except Refusal Text
  | .uuid u => .ok u.write
  | v => do
    let u ← readUuid (← v.textOf)
    return u.write

/-- The digits and capital letters without I, L, O and U. -/
def isUlidChar (c : Char) : Bool :=
  c.isDigit || (c.isUpper && c != 'I' && c != 'L' && c != 'O' && c != 'U')

def isUlid : Text → Bool
  | [] => false
  | c :: rest => '0' ≤ c && c ≤ '7' && rest.length == 25 && rest.all isUlidChar

def readUlid (raw : Text) : Except Refusal Text :=
  let capitals := Text.upperAscii raw
  if isUlid capitals then .ok capitals else .error (.invalid "ULID" raw)

def decodeUlidValue : Value → Except Refusal Value
  | .bytes bs => onlyText (.bytes bs)
  | v => lacks "upper" v

def decodeDate (raw : Text) : Except Refusal Value := ((Date.read raw).mapError .date).map .date

def encodeDate : Value → Except Refusal Text
  | .date d => .ok d.write
  | v => wrongKind "date" v

/-- Words of ASCII letters and digits with single dashes or underscores between them. `inWord` says
whether the character before was a letter or digit. -/
def isSlugFrom (inWord : Bool) : Text → Bool
  | [] => inWord
  | c :: rest =>
    if c.isAlphanum then isSlugFrom true rest
    else inWord && (c == '-' || c == '_') && isSlugFrom false rest

def readSlug (raw : Text) : Except Refusal Text :=
  if isSlugFrom false raw then .ok raw else .error (.invalid "slug" raw)

def decodeBase64 (raw : Text) : Except Refusal Value :=
  match Base64.decode raw with
  | .ok bytes => .ok (.bytes bytes)
  | .error .alphabet => .error (.invalid "base64url" raw)
  | .error (.dangling count) => .error (.dangling count)

def encodeBase64 : Value → Except Refusal Text
  | .text t => .ok (Base64.encode ((Utf8.encode t).map UInt8.ofNat))
  | .bytes bs => .ok (Base64.encode bs)
  | v => wrongKind "bytes" v

def text : Codec :=
  ⟨"str", fun raw => .ok (.text raw), fun v => v.textOf.map .text, encodeText,
    textMap [("type", "string")]⟩

def int : Codec := ⟨"int", decodeInt, onlyText, encodeInt, textMap [("type", "integer")]⟩

def float : Codec :=
  ⟨"float", decodeFloat, decodeFloatValue, encodeFloat, textMap [("type", "number")]⟩

def decimal : Codec :=
  ⟨"decimal", decodeDecimal, decodeDecimalValue, encodeDecimal,
    textMap [("type", "string"), ("format", "decimal")]⟩

def bool : Codec := ⟨"bool", decodeBool, decodeBoolValue, encodeBool, textMap [("type", "boolean")]⟩

def uuid : Codec :=
  ⟨"uuid", decodeUuid, decodeUuidValue, encodeUuid,
    textMap [("type", "string"), ("format", "uuid")]⟩

def ulid : Codec :=
  ⟨"ulid", fun raw => (readUlid raw).map .text, decodeUlidValue, fun v => encodeText v >>= readUlid,
    textMap [("type", "string"), ("pattern", "[0-7][0-9A-HJKMNP-TV-Z]\x7b25\x7d")]⟩

def date : Codec :=
  ⟨"date", decodeDate, fun _ => .error (.raised .badType "fromisoformat: argument must be str"),
    encodeDate, textMap [("type", "string"), ("format", "date")]⟩

def slug : Codec :=
  ⟨"slug", fun raw => (readSlug raw).map .text, onlyText, fun v => encodeText v >>= readSlug,
    textMap [("type", "string"), ("pattern", "[A-Za-z0-9]+(?:[-_][A-Za-z0-9]+)*")]⟩

def base64url : Codec :=
  ⟨"base64url", decodeBase64, onlyText, encodeBase64,
    textMap [("type", "string"), ("format", "byte")]⟩

def apply (c : Codec) : Value → Except Refusal Value
  | .text raw => c.decode raw
  | v => c.decodeValue v

end Codec

abbrev Registry := Table Text Codec

namespace Registry

/-- Adds a codec; one of the same name is replaced. -/
def register (c : Codec) (r : Registry) : Registry := Table.put c.name c r

def standard : Registry :=
  [Codec.text, Codec.int, Codec.float, Codec.decimal, Codec.bool, Codec.uuid, Codec.ulid,
    Codec.date, Codec.slug, Codec.base64url].foldl (fun r c => register c r) []

def find (name : Text) (r : Registry) : Except Refusal Codec :=
  match Table.get? name r with
  | some c => .ok c
  | none => .error (.raised .badValue ("Unknown codec: " ++ name))

def names (r : Registry) : List Text := Text.sorted r.keys

end Registry

end RoutePattern
