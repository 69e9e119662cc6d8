import RoutePattern.Text

/-!
Bytes as text in base-64: in the URL-safe alphabet without padding, and, to be read, in the usual
one.
-/

namespace RoutePattern
namespace Base64

def digit (n : Nat) : Char :=
  if n < 26 then Char.ofNat ('A'.toNat + n)
  else if n < 52 then Char.ofNat ('a'.toNat + (n - 26))
  else if n < 62 then Char.ofNat ('0'.toNat + (n - 52))
  else if n = 62 then '-'
  else '_'

def value? (c : Char) : Option Nat :=
  if 'A' ≤ c ∧ c ≤ 'Z' then some (c.toNat - 'A'.toNat)
  else if 'a' ≤ c ∧ c ≤ 'z' then some (c.toNat - 'a'.toNat + 26)
  else if '0' ≤ c ∧ c ≤ '9' then some (c.toNat - '0'.toNat + 52)
  else if c = '-' then some 62
  else if c = '_' then some 63
  else none

/-- Three bytes make four characters; one or two bytes at the end make two or three. -/
def encode : List UInt8 → Text
  | [] => []
  | [a] => [digit (a.toNat / 4), digit (a.toNat % 4 * 16)]
  | [a, b] =>
    [digit (a.toNat / 4), digit (a.toNat % 4 * 16 + b.toNat / 16), digit (b.toNat % 16 * 4)]
  | a :: b :: c :: rest =>
    digit (a.toNat / 4) :: digit (a.toNat % 4 * 16 + b.toNat / 16) ::
      digit (b.toNat % 16 * 4 + c.toNat / 64) :: digit (c.toNat % 64) :: encode rest

/-- Bytes of numbers below 64, four by four; spare bits at the end are dropped. -/
def bytes : List Nat → List UInt8
  | a :: b :: c :: d :: rest =>
    UInt8.ofNat (a * 4 + b / 16) :: UInt8.ofNat (b % 16 * 16 + c / 4) ::
      UInt8.ofNat (c % 4 * 64 + d) :: bytes rest
  | [a, b, c] => [UInt8.ofNat (a * 4 + b / 16), UInt8.ofNat (b % 16 * 16 + c / 4)]
  | [a, b] => [UInt8.ofNat (a * 4 + b / 16)]
  | _ => []

inductive Fault where
  | alphabet
  | dangling (count : Nat)
deriving DecidableEq, Repr

/-- The bytes of a text in the alphabet. One character over a multiple of four is too few for a
byte. -/
def decode (text : Text) : Except Fault (List UInt8) :=
  match text.mapM value? with
  | none => .error .alphabet
  | some values =>
    if values.length % 4 = 1 then .error (.dangling values.length) else .ok (bytes values)

def usualValue? (c : Char) : Option Nat :=
  if c = '+' then some 62
  else if c = '/' then some 63
  else if c = '-' ∨ c = '_' then none
  else value? c

/-- The numbers that the characters of the usual alphabet stand for, up to the padding, and whether
there was any. All other characters are skipped. -/
def padded (count pads : Nat) : Text → List Nat × Bool
  | [] => ([], false)
  | c :: rest =>
    if c = '=' then
      if 2 ≤ count % 4 ∧ 4 ≤ count % 4 + pads + 1 then ([], true)
      else padded count (pads + 1) rest
    else
      match usualValue? c with
      | none => padded count pads rest
      | some n =>
        let (others, isPadded) := padded (count + 1) 0 rest
        (n :: others, isPadded)

/-- The bytes of a text in the usual alphabet with padding, or what is said of one that has none. -/
def decodeLoosely (text : Text) : Except Text (List UInt8) :=
  let (values, isPadded) := padded 0 0 text
  if isPadded ∨ values.length % 4 = 0 then .ok (bytes values)
  else if values.length % 4 = 1 then
    .error ("Invalid base64-encoded string: number of data characters (" ++
      Text.ofNat values.length ++ ") cannot be 1 more than a multiple of 4")
  else .error "Incorrect padding"

end Base64
end RoutePattern
