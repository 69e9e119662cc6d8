import RoutePattern.Text.Blank
import RoutePattern.Text.Digit

/-!
Whole numbers as text. Numbers of more than 4300 digits are neither written nor read.
-/

namespace RoutePattern
namespace Whole

/-- The greatest number of digits that is converted. -/
def digitLimit : Nat := 4300

inductive Fault where
  | tooLongToWrite
  | tooLongToRead (digits : Nat)
  | malformed (base : Nat) (text : Text)
deriving DecidableEq, Repr

def write (n : Int) : Except Fault Text :=
  if n.natAbs < Nat.pow 10 digitLimit then .ok (Text.ofInt n) else .error .tooLongToWrite

def isDigitIn (base : Nat) (c : Char) : Bool :=
  (c.isDigit || ('a' ≤ c && c ≤ 'f') || ('A' ≤ c && c ≤ 'F')) && Text.digitsToNat 16 [c] < base

/-- The digits of a text in which single underscores may stand between digits. -/
def digits? (base : Nat) : Text → Option Text
  | [] => none
  | [c] => if isDigitIn base c then some [c] else none
  | c :: '_' :: rest => if isDigitIn base c then (digits? base rest).map (c :: ·) else none
  | c :: rest => if isDigitIn base c then (digits? base rest).map (c :: ·) else none

def sign : Text → Bool × Text
  | '-' :: rest => (true, rest)
  | '+' :: rest => (false, rest)
  | text => (false, text)

def mark? : Nat → Option Char
  | 2 => some 'b'
  | 8 => some 'o'
  | 16 => some 'x'
  | _ => none

/-- The text without the mark of its base, behind which an underscore may stand. -/
def withoutMark (base : Nat) (text : Text) : Text :=
  match text with
  | '0' :: letter :: rest =>
    if mark? base = some letter.toLower then
      match rest with
      | '_' :: more => more
      | _ => rest
    else text
  | _ => text

/-- Reads a number with a sign in front and white space around it. Only base ten has a limit, which is
looked at before what follows the digits. -/
def read (base : Nat) (text : Text) : Except Fault Int :=
  let (negative, marked) := sign (Text.plainDigits (Text.trimMargin text))
  let body := withoutMark base marked
  let isPart (c : Char) : Bool := isDigitIn base c || c == '_'
  match digits? base (body.takeWhile isPart) with
  | none => .error (.malformed base text)
  | some digits =>
    if base = 10 && digitLimit < digits.length then .error (.tooLongToRead digits.length)
    else if !(body.dropWhile isPart).isEmpty then .error (.malformed base text)
    else
      let n : Int := Text.digitsToNat base digits
      .ok (if negative then -n else n)

end Whole
end RoutePattern
