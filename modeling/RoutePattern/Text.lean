/-!
Text as a list of characters, and the few ways in which routes cut it apart and put it together.
-/

namespace RoutePattern

/-- Text is read, cut and compared character by character. -/
abbrev Text := List Char

instance : Coe String Text := ⟨String.toList⟩

namespace Text

/-- The pieces of a text between the occurrences of a separator; always at least one. -/
def split (separator : Char) : Text → List Text
  | [] => [[]]
  | c :: rest =>
    if c = separator then [] :: split separator rest
    else
      match split separator rest with
      | [] => [[c]]
      | piece :: pieces => (c :: piece) :: pieces

def join (separator : Text) (pieces : List Text) : Text :=
  separator.intercalate pieces

/-- What stands before and after the first occurrence of a character, if it occurs. -/
def cut (c : Char) : Text → Option (Text × Text)
  | [] => none
  | x :: rest =>
    if x = c then some ([], rest) else (cut c rest).map fun (before, after) => (x :: before, after)

def trim (c : Char) (text : Text) : Text :=
  ((text.dropWhile (· == c)).reverse.dropWhile (· == c)).reverse

def trimWhere (class_ : Char → Bool) (text : Text) : Text :=
  ((text.dropWhile class_).reverse.dropWhile class_).reverse

def indexOf (needle : Text) : Text → Option Nat
  | [] => if needle.isEmpty then some 0 else none
  | c :: rest =>
    if needle.isPrefixOf (c :: rest) then some 0 else (indexOf needle rest).map (· + 1)

def after? (start text : Text) : Option Text :=
  if start.isPrefixOf text then some (text.drop start.length) else none

/-- Pieces together with the index at which each one starts when one character separates them. -/
def located (start : Nat) : List Text → List (Nat × Text)
  | [] => []
  | piece :: pieces => (start, piece) :: located (start + piece.length + 1) pieces

def repeated (count : Nat) (text : Text) : Text :=
  (List.replicate count text).flatten

/-- Every occurrence of a non-empty text taken out, from left to right. -/
def without (unwanted : Text) (text : Text) : Text :=
  go text.length text
where
  go : Nat → Text → Text
    | _, [] => []
    | 0, text => text
    | fuel + 1, c :: rest =>
      if unwanted.isPrefixOf (c :: rest) && !unwanted.isEmpty then
        go fuel ((c :: rest).drop unwanted.length)
      else c :: go fuel rest

def before : Text → Text → Bool
  | [], [] => false
  | [], _ :: _ => true
  | _ :: _, [] => false
  | a :: as, b :: bs => if a = b then before as bs else a.toNat < b.toNat

def sorted (texts : List Text) : List Text := texts.mergeSort fun a b => !before b a

def ofNat (n : Nat) : Text := Nat.toDigits 10 n

/-- An integer in decimal digits, a minus sign before a negative one. -/
def ofInt : Int → Text
  | .ofNat n => ofNat n
  | .negSucc n => '-' :: ofNat (n + 1)

/-- A number in decimal digits, filled up with zeros on the left to a given width. -/
def padded (width n : Nat) : Text :=
  let digits := ofNat n
  List.replicate (width - digits.length) '0' ++ digits

/-- Capital ASCII letters as small ones, all else unchanged. -/
def lowerAscii (text : Text) : Text := text.map Char.toLower

end Text

end RoutePattern
