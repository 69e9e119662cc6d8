import RoutePattern.Number.Shortest
import RoutePattern.Text.Blank
import RoutePattern.Text.Digit

namespace RoutePattern
namespace FloatText

/-- Exponents in this range are written by placing the point, others with an `e`. -/
def positional (exponent : Int) : Bool := -4 ≤ exponent && exponent < 16

/-- Digits with their point placed; at least one digit stands on either side. -/
def placePoint (d : Digits) : Text :=
  if d.exponent < 0 then
    "0." ++ List.replicate (-d.exponent - 1).toNat '0' ++ d.digits
  else
    let whole := d.exponent.toNat + 1
    let padded := d.digits ++ List.replicate (whole - d.digits.length) '0'
    let fraction := padded.drop whole
    padded.take whole ++ '.' :: (if fraction.isEmpty then ['0'] else fraction)

def withExponent (d : Digits) : Text :=
  let mantissa :=
    match d.digits with
    | first :: second :: rest => first :: '.' :: second :: rest
    | digits => digits
  mantissa ++ (if d.exponent < 0 then "e-" else "e+") ++ Text.padded 2 d.exponent.natAbs

def write (x : Float) : Text :=
  match Binary.ofFloat? x with
  | none => if x.isNaN then "nan" else if x < 0 then "-inf" else "inf"
  | some b =>
    let d := Digits.shortest b
    let text := if positional d.exponent then placePoint d else withExponent d
    if b.negative then '-' :: text else text

/-- Digits with single underscores between them, and what follows them. -/
def digitRun : Text → Text × Text
  | [] => ([], [])
  | [c] => if c.isDigit then ([c], []) else ([], [c])
  | c :: d :: rest =>
    if c.isDigit then
      if d = '_' then
        if rest.head?.any Char.isDigit then
          let (digits, after) := digitRun rest
          (c :: digits, after)
        else ([c], d :: rest)
      else
        let (digits, after) := digitRun (d :: rest)
        (c :: digits, after)
    else ([], c :: d :: rest)

def sign : Text → Bool × Text
  | '-' :: rest => (true, rest)
  | '+' :: rest => (false, rest)
  | text => (false, text)

/-- The double nearest to `mantissa * 10 ^ exponent`. -/
def ofDecimal (mantissa : Nat) (exponent : Int) : Float :=
  let size := exponent + ((Text.ofNat mantissa).length : Int)
  if mantissa = 0 || size < -400 then 0.0
  else if 400 < size then 1.0 / 0.0
  else Float.ofScientific mantissa (exponent < 0) exponent.natAbs

/-- The exponent behind the digits of a number: none written is zero. -/
def exponent? : Text → Option Int
  | [] => some 0
  | c :: rest =>
    if c = 'e' || c = 'E' then
      let (negative, rest) := sign rest
      let (digits, after) := digitRun rest
      if digits.isEmpty || !after.isEmpty then none
      else
        let n : Int := Text.digitsToNat 10 digits
        some (if negative then -n else n)
    else none

def magnitude? (text : Text) : Option Float :=
  let word := Text.lowerAscii text
  if word == "inf".toList || word == "infinity".toList then some (1.0 / 0.0)
  else if word == "nan".toList then some (0.0 / 0.0)
  else
    let (whole, rest) := digitRun text
    let (fraction, rest) :=
      match rest with
      | '.' :: more => digitRun more
      | _ => ([], rest)
    if whole.isEmpty && fraction.isEmpty then none
    else
      (exponent? rest).map fun e =>
        ofDecimal (Text.digitsToNat 10 (whole ++ fraction)) (e - fraction.length)

/-- Reads a number: digits of any script with a point, an exponent and underscores between digits,
or a word for infinity or for no number, a sign in front, white space around. -/
def read? (text : Text) : Option Float :=
  let (negative, body) := sign (Text.plainDigits (Text.trimMargin text))
  (magnitude? body).map fun x => if negative then -x else x

end FloatText
end RoutePattern
