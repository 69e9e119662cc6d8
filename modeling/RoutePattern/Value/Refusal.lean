import RoutePattern.Value

namespace RoutePattern

inductive RefusalKind where
  | badValue
  | badType
  | missingKey
  | badEncoding
  | badIndex
  | noSuchFile
  | isDirectory
  | notADirectory
  | unsupported
  | abort
deriving DecidableEq, Repr

inductive Refusal where
  | invalid (what : String) (raw : Text)
  | noNumber (raw : Text)
  | digits (fault : Whole.Fault)
  | uuid (fault : Uuid.Fault)
  | date (fault : DateFault)
  | dangling (count : Nat)
  | expected (wanted : String) (got : Text)
  | notText (got : Text)
  | lacking (operation : String) (got : Text)
  | beforeSegments
  | raised (kind : RefusalKind) (message : Text)
deriving DecidableEq, Repr

namespace Refusal

def kind : Refusal → RefusalKind
  | dangling _ => .badEncoding
  | expected .. => .badType
  | notText _ => .badType
  | lacking .. => .unsupported
  | beforeSegments => .badIndex
  | raised kind _ => kind
  | _ => .badValue

def wholeMessage : Whole.Fault → Text
  | .tooLongToWrite =>
    "Exceeds the limit (" ++ Text.ofNat Whole.digitLimit ++
      " digits) for integer string conversion; " ++
      "use sys.set_int_max_str_digits() to increase the limit"
  | .tooLongToRead count =>
    "Exceeds the limit (" ++ Text.ofNat Whole.digitLimit ++
      " digits) for integer string conversion: value has " ++ Text.ofNat count ++
      " digits; use sys.set_int_max_str_digits() to increase the limit"
  | .malformed base text =>
    "invalid literal for int() with base " ++ Text.ofNat base ++ ": " ++
      (Text.quoted text).take 200

def dateMessage : DateFault → Text
  | .malformed text => "Invalid isoformat string: " ++ Text.quoted text
  | .monthRange => "month must be in 1..12"
  | .dayRange => "day is out of range for month"
  | .yearRange year => "year " ++ Text.ofNat year ++ " is out of range"
  | .hourRange => "hour must be in 0..23"
  | .minuteRange => "minute must be in 0..59"
  | .secondRange => "second must be in 0..59"
  | .offsetRange offset =>
    "offset must be a timedelta strictly between -timedelta(hours=24) and timedelta(hours=24), " ++
      "not " ++ offset ++ "."

def message : Refusal → Text
  | invalid what raw => "Invalid " ++ what ++ ": " ++ raw
  | noNumber raw => "could not convert string to float: " ++ Text.quoted raw
  | digits fault => wholeMessage fault
  | uuid .length => "badly formed hexadecimal UUID string"
  | uuid (.digits fault) => wholeMessage fault
  | date fault => dateMessage fault
  | dangling count =>
    "Invalid base64-encoded string: number of data characters (" ++ Text.ofNat count ++
      ") cannot be 1 more than a multiple of 4"
  | expected wanted got => "Expected " ++ wanted ++ ", got " ++ got
  | notText got => "expected string or bytes-like object, got '" ++ got ++ "'"
  | lacking operation got => "'" ++ got ++ "' object has no attribute '" ++ operation ++ "'"
  | beforeSegments => "tuple index out of range"
  | raised _ message => message

def unreadablePath : Refusal := .raised .badValue "embedded null byte"

end Refusal

/-- A value that can be a key of a mapping. A signaling value that is no number has no key either. -/
def Value.asKey (v : Value) : Except Refusal Value :=
  match v.unkeyable? with
  | some part => .error (.raised .badType ("unhashable type: '" ++ part.kind ++ "'"))
  | none =>
    match v with
    | .decimal (.undefined _ true _) =>
      .error (.raised .badType "Cannot hash a signaling NaN value")
    | _ => .ok v

def Value.textOf (v : Value) : Except Refusal Text := v.write.mapError .digits

def Value.textsOf : List Value → Except Refusal (List Text)
  | [] => .ok []
  | v :: rest => do
    let first ← v.textOf
    let others ← textsOf rest
    return first :: others

def Value.quotedOf (v : Value) : Except Refusal Text := v.quoted.mapError .digits

end RoutePattern
