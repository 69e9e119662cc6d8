import RoutePattern.Number.Shortest
import RoutePattern.Text.Blank
import RoutePattern.Text.Digit

/-!
Decimal numbers that keep their trailing zeros, with their scientific text.
-/

namespace RoutePattern

/-- A decimal number: `coefficient * 10 ^ exponent` with a sign, an infinity, or what is no number. -/
inductive Decimal where
  | finite (negative : Bool) (coefficient : Nat) (exponent : Int)
  | infinite (negative : Bool)
  | undefined (negative signaling : Bool) (payload : Text)
deriving DecidableEq, Repr

namespace Decimal

def isFinite : Decimal → Bool
  | finite .. => true
  | _ => false

/-- The greatest exponent of the leading digit, and the least exponent of the last one. -/
def greatestExponent : Int := 999999999999999999

def leastExponent : Int := -1999999999999999997

def inRange (coefficient : Nat) (exponent : Int) : Bool :=
  leastExponent ≤ exponent &&
    if coefficient = 0 then exponent ≤ greatestExponent
    else exponent + (Text.ofNat coefficient).length - 1 ≤ greatestExponent

def scientific (digits : Text) (adjusted : Int) : Text :=
  let mantissa :=
    match digits with
    | first :: second :: rest => first :: '.' :: second :: rest
    | _ => digits
  mantissa ++ (if adjusted < 0 then "E-" else "E+") ++ Text.ofNat adjusted.natAbs

def withPlaces (digits : Text) (places : Nat) : Text :=
  if places = 0 then digits
  else if places < digits.length then
    digits.take (digits.length - places) ++ '.' :: digits.drop (digits.length - places)
  else "0." ++ List.replicate (places - digits.length) '0' ++ digits

/-- The text of a decimal. Places are written out while the exponent is not positive and the leading
digit stands at most six places behind the point. -/
def write : Decimal → Text
  | finite negative coefficient exponent =>
    let digits := Text.ofNat coefficient
    let adjusted := exponent + digits.length - 1
    let text :=
      if exponent ≤ 0 && -6 ≤ adjusted then withPlaces digits exponent.natAbs
      else scientific digits adjusted
    if negative then '-' :: text else text
  | infinite negative => if negative then "-Infinity" else "Infinity"
  | undefined negative signaling payload =>
    (if negative then "-" else "") ++ (if signaling then "sNaN" else "NaN") ++ payload

/-- A number in so many binary places as a number in the fewest; both are equal. -/
def fewestPlaces : Nat → Nat → Nat × Nat
  | 0, n => (n, 0)
  | places + 1, n => if n % 2 = 0 then fewestPlaces places (n / 2) else (n, places + 1)

/-- The decimal that is equal to a binary number. -/
def ofBinary (b : Binary) : Decimal :=
  if 0 ≤ b.exponent then finite b.negative (b.mantissa * Nat.pow 2 b.exponent.toNat) 0
  else
    let (n, places) := fewestPlaces b.exponent.natAbs b.mantissa
    finite b.negative (n * Nat.pow 5 places) (-(places : Int))

/-- The exponent behind the digits; none written is zero. -/
def exponent? : Text → Option Int
  | [] => some 0
  | c :: rest =>
    if c = 'e' || c = 'E' then
      let (negative, digits) :=
        match rest with
        | '-' :: digits => (true, digits)
        | '+' :: digits => (false, digits)
        | digits => (false, digits)
      if digits.isEmpty || !digits.all Char.isDigit then none
      else
        let n : Int := Text.digitsToNat 10 digits
        some (if negative then -n else n)
    else none

def undefined? (negative : Bool) (word : Text) : Option Decimal :=
  let payload? (signaling : Bool) (digits : Text) : Option Decimal :=
    if digits.all Char.isDigit then
      some (undefined negative signaling (digits.dropWhile (· == '0')))
    else none
  match Text.after? "nan" word, Text.after? "snan" word with
  | some digits, _ => payload? false digits
  | none, some digits => payload? true digits
  | none, none => none

def magnitude? (negative : Bool) (text : Text) : Option Decimal :=
  let word := Text.lowerAscii text
  if word == "inf".toList || word == "infinity".toList then some (infinite negative)
  else
    match undefined? negative word with
    | some d => some d
    | none =>
      let whole := text.takeWhile Char.isDigit
      let rest := text.dropWhile Char.isDigit
      let (fraction, rest) :=
        match rest with
        | '.' :: more => (more.takeWhile Char.isDigit, more.dropWhile Char.isDigit)
        | _ => ([], rest)
      if whole.isEmpty && fraction.isEmpty then none
      else
        (exponent? rest).bind fun e =>
          let coefficient := Text.digitsToNat 10 (whole ++ fraction)
          let exponent := e - fraction.length
          if inRange coefficient exponent then some (finite negative coefficient exponent) else none

/-- Reads a decimal: digits of any script with a point and an exponent, or a word for infinity or for
no number, a sign in front, white space around. Underscores are skipped. -/
def read? (text : Text) : Option Decimal :=
  match (Text.plainDigits (Text.trimBlank text)).filter (· != '_') with
  | '-' :: rest => magnitude? true rest
  | '+' :: rest => magnitude? false rest
  | rest => magnitude? false rest

end Decimal
end RoutePattern
