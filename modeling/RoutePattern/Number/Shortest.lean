import RoutePattern.Text

/-!
Binary floating-point numbers as exact fractions, and the shortest decimal digits that read back as
a given number.
-/

namespace RoutePattern

/-- A finite number: `mantissa * 2 ^ exponent`, negated where `negative`. `tight` marks the lowest
mantissa of its binade, whose lower neighbour is only half as far away as the upper one. -/
structure Binary where
  negative : Bool
  mantissa : Nat
  exponent : Int
  tight : Bool

namespace Binary

/-- The parts of a finite double, none for infinities and for what is no number. -/
def ofFloat? (x : Float) : Option Binary :=
  let bits : Nat := x.toBits.toNat
  let field : Nat := bits / Nat.pow 2 52 % Nat.pow 2 11
  let fraction : Nat := bits % Nat.pow 2 52
  let negative : Bool := Nat.pow 2 63 ≤ bits
  if field = 2047 then none
  else if field = 0 then some ⟨negative, fraction, -1074, false⟩
  else some ⟨negative, fraction + Nat.pow 2 52, (field : Int) - 1075, fraction == 0 && field != 1⟩

end Binary

/-- Digits with the place of the first one: the number is `d.ddd * 10 ^ exponent`. -/
structure Digits where
  digits : Text
  exponent : Int
deriving DecidableEq, Repr

namespace Digits

/-- A positive fraction; integers on both sides keep all comparisons exact. -/
structure Fraction where
  numerator : Nat
  denominator : Nat

/-- `n * 2 ^ e` -/
def Fraction.binary (n : Nat) (e : Int) : Fraction :=
  if 0 ≤ e then ⟨n * Nat.pow 2 e.toNat, 1⟩ else ⟨n, Nat.pow 2 (-e).toNat⟩

/-- The number in units of `10 ^ e`. -/
def Fraction.perTen (f : Fraction) (e : Int) : Fraction :=
  if 0 ≤ e then ⟨f.numerator, f.denominator * Nat.pow 10 e.toNat⟩
  else ⟨f.numerator * Nat.pow 10 (-e).toNat, f.denominator⟩

/-- The greatest `e` with `10 ^ e` not above the number, found from a guess that is too low by at
most the number of tries. -/
def Fraction.magnitude (f : Fraction) : Nat → Int → Int
  | 0, guess => guess
  | tries + 1, guess =>
    let next := f.perTen (guess + 1)
    if next.denominator ≤ next.numerator then f.magnitude tries (guess + 1) else guess

/-- The multiple of a power of ten that lies nearest to `value` among the two around it, if one of
them lies between `low` and `high`; the bounds count where `closed`. All are in units of that
power. -/
def nearestWithin (value low high : Fraction) (closed : Bool) : Option Nat :=
  let below := value.numerator / value.denominator
  let above := below + 1
  let inside (n : Nat) : Bool :=
    if closed then
      low.numerator ≤ n * low.denominator && n * high.denominator ≤ high.numerator
    else low.numerator < n * low.denominator && n * high.denominator < high.numerator
  let rest := value.numerator - below * value.denominator
  match inside below, inside above with
  | true, true =>
    if 2 * rest < value.denominator then some below
    else if value.denominator < 2 * rest then some above
    else if below % 2 = 0 then some below else some above
  | true, false => some below
  | false, true => some above
  | false, false => none

/-- The first grid, from `count` digits on, that has a multiple between the bounds. -/
def search (value low high : Fraction) (closed : Bool) (magnitude : Int) :
    Nat → Int → Nat × Int
  | 0, count => (0, magnitude + 1 - count)
  | tries + 1, count =>
    let unit := magnitude + 1 - count
    match nearestWithin (value.perTen unit) (low.perTen unit) (high.perTen unit) closed with
    | some n => (n, unit)
    | none => search value low high closed magnitude tries (count + 1)

/-- The fewest digits that read back as the number, and of these the nearest ones. -/
def shortest (b : Binary) : Digits :=
  if b.mantissa = 0 then ⟨['0'], 0⟩
  else
    let value := Fraction.binary (4 * b.mantissa) (b.exponent - 2)
    let low := Fraction.binary (4 * b.mantissa - if b.tight then 1 else 2) (b.exponent - 2)
    let high := Fraction.binary (4 * b.mantissa + 2) (b.exponent - 2)
    let guess := (b.exponent + Nat.log2 b.mantissa) * 1233 / 4096 - 1
    let magnitude := value.magnitude 4 guess
    let (n, unit) := search value low high (b.mantissa % 2 == 0) magnitude 17 1
    let written := Text.ofNat n
    let digits := (written.reverse.dropWhile (· == '0')).reverse
    ⟨digits, unit + (written.length : Int) - 1⟩

end Digits

end RoutePattern
