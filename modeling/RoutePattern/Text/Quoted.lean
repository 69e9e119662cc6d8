import RoutePattern.Text.Printable

/-!
Quoted text: between quotes, on one line, with every hidden character spelt out.
-/

namespace RoutePattern
namespace Text

/-- Single quotes, unless the text holds one and no double quote. -/
def quoteFor (text : Text) : Char :=
  if text.contains '\'' && !text.contains '"' then '"' else '\''

def hex (width n : Nat) : Text :=
  let digits := Nat.toDigits 16 n
  List.replicate (width - digits.length) '0' ++ digits

def spelt (c : Char) : Text :=
  if c.toNat < 0x100 then "\\x" ++ hex 2 c.toNat
  else if c.toNat < 0x10000 then "\\u" ++ hex 4 c.toNat
  else "\\U" ++ hex 8 c.toNat

def quotedChar (quote c : Char) : Text :=
  if c = quote ∨ c = '\\' then ['\\', c]
  else if c = '\n' then "\\n"
  else if c = '\r' then "\\r"
  else if c = '\t' then "\\t"
  else if isPrintable c then [c]
  else spelt c

def quoted (text : Text) : Text :=
  let quote := quoteFor text
  quote :: text.flatMap (quotedChar quote) ++ [quote]

/-- Bytes between quotes; what is no visible ASCII character is spelt out. -/
def quotedBytes (bytes : List UInt8) : Text :=
  let chars := bytes.map fun b => Char.ofNat b.toNat
  let quote := quoteFor chars
  let shown (c : Char) : Text :=
    if 0x7F ≤ c.toNat then "\\x" ++ hex 2 c.toNat else quotedChar quote c
  'b' :: quote :: chars.flatMap shown ++ [quote]

/-- What is said of the first characters of a text that are not in ASCII. -/
def beyondAscii? (text : Text) : Option Text :=
  let isBeyond (c : Char) : Bool := 0x7F < c.toNat
  let start := (text.takeWhile (!isBeyond ·)).length
  let told (first : Text) (place : Text) : Text :=
    "'ascii' codec can't encode " ++ first ++ " in position " ++ place ++
      ": ordinal not in range(128)"
  match (text.drop start).takeWhile isBeyond with
  | [] => none
  | [c] => some (told ("character '" ++ spelt c ++ "'") (ofNat start))
  | run => some (told "characters" (ofNat start ++ '-' :: ofNat (start + run.length - 1)))

end Text
end RoutePattern
