import RoutePattern.Query
import RoutePattern.Text.Utf8

/-!
Targets: the raw text of a request, cut into path segments and a query. Segments stay as they are;
keys and values of the query are percent-decoded.
-/

namespace RoutePattern

def hexValue? (c : Char) : Option Nat :=
  if c.isDigit then some (c.toNat - '0'.toNat)
  else if 'a' ≤ c && c ≤ 'f' then some (c.toNat - 'a'.toNat + 10)
  else if 'A' ≤ c && c ≤ 'F' then some (c.toNat - 'A'.toNat + 10)
  else none

/-- The bytes that ASCII text stands for. A percent sign without two hexadecimal digits behind it
stands for itself. -/
def percentBytes : Text → List Nat
  | [] => []
  | [c] => [c.toNat]
  | [c, d] => [c.toNat, d.toNat]
  | c :: d :: e :: rest =>
    if c = '%' then
      match hexValue? d, hexValue? e with
      | some high, some low => (high * 16 + low) :: percentBytes rest
      | _, _ => c.toNat :: percentBytes (d :: e :: rest)
    else c.toNat :: percentBytes (d :: e :: rest)

/-- Decodes text whose characters outside ASCII stand for themselves. `run` is the ASCII run under
way, last character first. -/
def percentDecode (run : Text) : Text → Text
  | [] => Utf8.decode none (percentBytes run.reverse)
  | c :: rest =>
    if c.toNat < 0x80 then percentDecode (c :: run) rest
    else Utf8.decode none (percentBytes run.reverse) ++ c :: percentDecode [] rest

/-- A key or value as the query spells it: a plus sign is a space. -/
def decodeQueryText (text : Text) : Text :=
  percentDecode [] (text.map fun c => if c = '+' then ' ' else c)

/-- A piece of a query cut at its first equals sign; without one it is a key with an empty value. -/
def decodeQueryPiece (piece : Text) : Text × Text :=
  match Text.cut '=' piece with
  | some (key, value) => (decodeQueryText key, decodeQueryText value)
  | none => (decodeQueryText piece, [])

/-- The pairs of a raw query; empty pieces are dropped. -/
def queryPairs (query : Text) : List (Text × Text) :=
  ((Text.split '&' query).filter (!·.isEmpty)).map decodeQueryPiece

/-- The segments of a raw path; empty ones are dropped. -/
def splitPath (path : Text) : List Text := (Text.split '/' path).filter (!·.isEmpty)

structure Target where
  segments : List Text
  query : Query

namespace Target

/-- Reads a target; a fragment is dropped. -/
def ofText (text : Text) : Target :=
  let text := text.takeWhile (· != '#')
  let path := text.takeWhile (· != '?')
  let query := (text.dropWhile (· != '?')).drop 1
  ⟨splitPath path, Query.ofPairs (queryPairs query)⟩

end Target

end RoutePattern
