import RoutePattern.Text.Line
import RoutePattern.Value

namespace RoutePattern
namespace Document
namespace Json

inductive Cause where
  | value
  | propertyName
  | colon
  | comma
  | extra
  | control
  | unterminated
  | escape
  | unicodeEscape
  | byteOrderMark
deriving DecidableEq, Repr

namespace Cause

def text : Cause → Text
  | value => "Expecting value"
  | propertyName => "Expecting property name enclosed in double quotes"
  | colon => "Expecting ':' delimiter"
  | comma => "Expecting ',' delimiter"
  | extra => "Extra data"
  | control => "Invalid control character at"
  | unterminated => "Unterminated string starting at"
  | escape => "Invalid \\escape"
  | unicodeEscape => "Invalid \\uXXXX escape"
  | byteOrderMark => "Unexpected UTF-8 BOM (decode using utf-8-sig)"

end Cause

/-- Why reading stopped: a cause with the number of characters that were left there, or a number
that is not converted. -/
inductive Stop where
  | malformed (cause : Cause) (left : Nat)
  | number (fault : Whole.Fault)
deriving DecidableEq, Repr

def stop {α : Type} (cause : Cause) (left : Text) : Except Stop (α × Text) :=
  .error (.malformed cause left.length)

def isSpace (c : Char) : Bool := c == ' ' || c == '\t' || c == '\n' || c == '\r'

def skipSpace (text : Text) : Text := text.dropWhile isSpace

def hexDigit? (c : Char) : Option Nat :=
  if c.isDigit || ('a' ≤ c && c ≤ 'f') || ('A' ≤ c && c ≤ 'F') then
    some (Text.digitsToNat 16 [c])
  else none

/-- Four hexadecimal digits with at least one character behind them. -/
def codeUnit? : Text → Option (Nat × Text)
  | a :: b :: c :: d :: e :: rest => do
    let digits ← [a, b, c, d].mapM hexDigit?
    return (digits.foldl (fun n digit => n * 16 + digit) 0, e :: rest)
  | _ => none

def isHighHalf (unit : Nat) : Bool := 0xD800 ≤ unit && unit < 0xDC00

def isLowHalf (unit : Nat) : Bool := 0xDC00 ≤ unit && unit < 0xE000

/-- The character behind `\u`. `text` starts with the `u`. Two halves of a pair are one character. -/
def unicodeEscape (text : Text) : Except Stop (Char × Text) :=
  match codeUnit? (text.drop 1) with
  | none => stop .unicodeEscape text
  | some (unit, rest) =>
    match isHighHalf unit, rest with
    | true, '\\' :: 'u' :: more =>
      match codeUnit? more with
      | some (low, after) =>
        if isLowHalf low then
          .ok (Char.ofNat (0x10000 + (unit - 0xD800) * 0x400 + (low - 0xDC00)), after)
        else .ok (Char.ofNat unit, rest)
      | none => if more.length < 5 then .ok (Char.ofNat unit, rest) else stop .unicodeEscape ('u' :: more)
    | _, _ => .ok (Char.ofNat unit, rest)

/-- The character that an escape stands for. `text` starts with the backslash. -/
def escape (text : Text) : Except Stop (Char × Text) :=
  match text.drop 1 with
  | '"' :: rest => .ok ('"', rest)
  | '\\' :: rest => .ok ('\\', rest)
  | '/' :: rest => .ok ('/', rest)
  | 'b' :: rest => .ok ('\x08', rest)
  | 'f' :: rest => .ok ('\x0c', rest)
  | 'n' :: rest => .ok ('\n', rest)
  | 'r' :: rest => .ok ('\r', rest)
  | 't' :: rest => .ok ('\t', rest)
  | 'u' :: rest => unicodeEscape ('u' :: rest)
  | _ => stop .escape text

/-- The rest of a string behind its opening quote, which had `opened` characters left. -/
def string (opened : Nat) : Nat → Text → Except Stop (Text × Text)
  | 0, _ => .error (.malformed .unterminated opened)
  | _, [] => .error (.malformed .unterminated opened)
  | fuel + 1, c :: rest =>
    if c = '"' then .ok ([], rest)
    else if c = '\\' then
      if rest.isEmpty then .error (.malformed .unterminated opened)
      else do
        let (e, after) ← escape (c :: rest)
        let (others, after) ← string opened fuel after
        return (e :: others, after)
    else if c.toNat < 0x20 then stop .control (c :: rest)
    else do
      let (others, after) ← string opened fuel rest
      return (c :: others, after)

/-- A fraction of at least one digit, or nothing. -/
def fraction (text : Text) : Text × Text :=
  match text with
  | '.' :: rest =>
    let digits := rest.takeWhile Char.isDigit
    if digits.isEmpty then ([], text) else ('.' :: digits, rest.dropWhile Char.isDigit)
  | _ => ([], text)

/-- An exponent of at least one digit, or nothing. -/
def exponent (text : Text) : Text × Text :=
  match text with
  | [] => ([], [])
  | e :: rest =>
    let mark :=
      match rest with
      | '+' :: _ => ['+']
      | '-' :: _ => ['-']
      | _ => []
    let body := rest.drop mark.length
    let digits := body.takeWhile Char.isDigit
    if (e = 'e' || e = 'E') && !digits.isEmpty then
      (e :: mark ++ digits, body.dropWhile Char.isDigit)
    else ([], text)

/-- The whole part of a number: a zero, or digits of which the first is none. -/
def wholePart? (text : Text) : Option (Text × Text) :=
  match text with
  | '0' :: rest => some (['0'], rest)
  | c :: _ =>
    if c.isDigit then some (text.takeWhile Char.isDigit, text.dropWhile Char.isDigit) else none
  | [] => none

def number (text : Text) : Except Stop (Value × Text) :=
  let mark : Text := if text.head? = some '-' then ['-'] else []
  match wholePart? (text.drop mark.length) with
  | none => stop .value text
  | some (whole, rest) =>
    let (fraction, rest) := fraction rest
    let (exponent, rest) := exponent rest
    if fraction.isEmpty && exponent.isEmpty then
      match Whole.read 10 (mark ++ whole) with
      | .ok n => .ok (.int n, rest)
      | .error fault => .error (.number fault)
    else
      match FloatText.read? (mark ++ whole ++ fraction ++ exponent) with
      | some x => .ok (.float x, rest)
      | none => stop .value text

def words : List (Text × Value) :=
  [("null", .null), ("true", .bool true), ("false", .bool false), ("NaN", .float (0.0 / 0.0)),
    ("Infinity", .float (1.0 / 0.0)), ("-Infinity", .float (-1.0 / 0.0))]

def word? (text : Text) : Option (Value × Text) :=
  words.findSome? fun (word, v) => (Text.after? word text).map (v, ·)

mutual

def value : Nat → Text → Except Stop (Value × Text)
  | 0, text => stop .value text
  | fuel + 1, text =>
    match text with
    | '"' :: rest => (string text.length rest.length rest).map fun (t, after) => (.text t, after)
    | '[' :: rest =>
      match skipSpace rest with
      | ']' :: after => .ok (.list [], after)
      | rest => (items fuel rest).map fun (vs, after) => (.list vs, after)
    | '{' :: rest =>
      match skipSpace rest with
      | '}' :: after => .ok (.map [], after)
      | rest => (members fuel rest).map fun (es, after) => (.ofEntries es, after)
    | _ =>
      match word? text with
      | some found => .ok found
      | none => number text

def items : Nat → Text → Except Stop (List Value × Text)
  | 0, text => stop .value text
  | fuel + 1, text => do
    let (first, rest) ← value fuel text
    match skipSpace rest with
    | ']' :: after => return ([first], after)
    | ',' :: rest =>
      let (others, after) ← items fuel (skipSpace rest)
      return (first :: others, after)
    | rest => stop .comma rest

def members : Nat → Text → Except Stop (List (Value × Value) × Text)
  | 0, text => stop .value text
  | fuel + 1, text =>
    match text with
    | '"' :: body => do
      let (key, rest) ← string text.length body.length body
      match skipSpace rest with
      | ':' :: rest =>
        let (v, rest) ← value fuel (skipSpace rest)
        match skipSpace rest with
        | '}' :: after => return ([(.text key, v)], after)
        | ',' :: rest =>
          let (others, after) ← members fuel (skipSpace rest)
          return ((.text key, v) :: others, after)
        | rest => stop .comma rest
      | rest => stop .colon rest
    | _ => stop .propertyName text

end

/-- Why a text gives no value: it is malformed at an index, or holds a number with too many
digits. -/
inductive Fault where
  | malformed (cause : Cause) (source : Text) (index : Nat)
  | number (fault : Whole.Fault)
deriving DecidableEq, Repr

namespace Fault

def describe (cause : Cause) (source : Text) (index : Nat) : Text :=
  let (line, column) := Text.place (source.take index)
  cause.text ++ ": line " ++ Text.ofNat line ++ " column " ++ Text.ofNat column ++ " (char " ++
    Text.ofNat index ++ ")"

end Fault

/-- Reads a document: one value, with white space around it. -/
def read (source : Text) : Except Fault Value :=
  let placed : Stop → Fault
    | .malformed cause left => .malformed cause source (source.length - left)
    | .number fault => .number fault
  if source.head? = some '\uFEFF' then .error (.malformed .byteOrderMark source 0)
  else
    match value (2 * source.length + 2) (skipSpace source) with
    | .error s => .error (placed s)
    | .ok (v, rest) =>
      match skipSpace rest with
      | [] => .ok v
      | extra => .error (placed (.malformed .extra extra.length))

def unitEscape (unit : Nat) : Text := "\\u" ++ Text.hex 4 unit

def quotedChar (c : Char) : Text :=
  if c = '"' then "\\\""
  else if c = '\\' then "\\\\"
  else if c = '\n' then "\\n"
  else if c = '\r' then "\\r"
  else if c = '\t' then "\\t"
  else if c = '\x08' then "\\b"
  else if c = '\x0c' then "\\f"
  else if 0x20 ≤ c.toNat && c.toNat < 0x7F then [c]
  else if c.toNat < 0x10000 then unitEscape c.toNat
  else
    let n := c.toNat - 0x10000
    unitEscape (0xD800 + n / 0x400) ++ unitEscape (0xDC00 + n % 0x400)

def quoted (text : Text) : Text := '"' :: text.flatMap quotedChar ++ ['"']

def floatText (x : Float) : Text :=
  if x.isNaN then "NaN"
  else if x.isInf then if x < 0 then "-Infinity" else "Infinity"
  else FloatText.write x

def scalar : Value → Except Whole.Fault Text
  | .null => .ok "null"
  | .bool b => .ok (if b then "true" else "false")
  | .int n => Whole.write n
  | .float x => .ok (floatText x)
  | v => v.write.map quoted

/-- A key; numbers and words are written as text. -/
def keyText : Value → Except Whole.Fault Text
  | .text t => .ok (quoted t)
  | v => (scalar v).map quoted

def margin (depth : Nat) : Text := '\n' :: List.replicate (2 * depth) ' '

def block (opening closing : Char) (depth : Nat) (lines : List Text) : Text :=
  if lines.isEmpty then [opening, closing]
  else
    opening :: margin (depth + 1) ++ Text.join (',' :: margin (depth + 1)) lines ++
      margin depth ++ [closing]

mutual

def writeAt (depth : Nat) : Value → Except Whole.Fault Text
  | .list vs => (writeItems (depth + 1) vs).map (block '[' ']' depth)
  | .tuple vs => (writeItems (depth + 1) vs).map (block '[' ']' depth)
  | .map es => (writeEntries (depth + 1) es).map (block '{' '}' depth)
  | v => scalar v

def writeItems (depth : Nat) : List Value → Except Whole.Fault (List Text)
  | [] => .ok []
  | v :: rest => do
    let first ← writeAt depth v
    let others ← writeItems depth rest
    return first :: others

def writeEntries (depth : Nat) : List (Value × Value) → Except Whole.Fault (List Text)
  | [] => .ok []
  | (k, v) :: rest => do
    let key ← keyText k
    let first ← writeAt depth v
    let others ← writeEntries depth rest
    return (key ++ ": " ++ first) :: others

end

def write (v : Value) : Except Whole.Fault Text := writeAt 0 v

end Json
end Document
end RoutePattern
