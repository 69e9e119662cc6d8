import RoutePattern.Number.Whole

namespace RoutePattern

structure Uuid where
  bits : BitVec 128
deriving DecidableEq, Repr

namespace Uuid

inductive Fault where
  | length
  | digits (fault : Whole.Fault)
deriving DecidableEq, Repr

def hexDigits (width n : Nat) : Text :=
  let digits := Nat.toDigits 16 n
  List.replicate (width - digits.length) '0' ++ digits

/-- Thirty-two digits in groups of 8, 4, 4, 4 and 12. -/
def write (u : Uuid) : Text :=
  let digits := hexDigits 32 u.bits.toNat
  Text.join ['-'] [digits.take 8, (digits.drop 8).take 4, (digits.drop 12).take 4,
    (digits.drop 16).take 4, digits.drop 20]

/-- The text without the marks that may surround the digits. -/
def bare (text : Text) : Text :=
  let text := Text.without "uuid:" (Text.without "urn:" text)
  (Text.trimWhere (fun c => c == '\x7b' || c == '\x7d') text).filter (· != '-')

/-- Reads an identifier of 32 characters, marks apart, that are read as one number in base 16. -/
def read (text : Text) : Except Fault Uuid :=
  let digits := bare text
  if digits.length ≠ 32 then .error .length
  else
    match Whole.read 16 digits with
    | .ok n => .ok ⟨BitVec.ofInt 128 n⟩
    | .error fault => .error (.digits fault)

end Uuid
end RoutePattern
