import RoutePattern.Text

/-!
White space, as it may stand around a number or a line.
-/

namespace RoutePattern
namespace Text

/-- First and last code points of the runs of white space. -/
def blankRuns : List (Nat × Nat) :=
  [(0x9, 0xD), (0x1C, 0x20), (0x85, 0x85), (0xA0, 0xA0), (0x1680, 0x1680),
   (0x2000, 0x200A), (0x2028, 0x2029), (0x202F, 0x202F), (0x205F, 0x205F), (0x3000, 0x3000)]

def isBlank (c : Char) : Bool :=
  blankRuns.any fun (first, last) => first ≤ c.toNat && c.toNat ≤ last

def trimBlank (text : Text) : Text := trimWhere isBlank text

/-- White space that may stand around a whole or a floating-point number: all but the separators
of ASCII. -/
def isMargin (c : Char) : Bool := isBlank c && (c.toNat < 0x1C || 0x20 ≤ c.toNat)

def trimMargin (text : Text) : Text := trimWhere isMargin text

end Text
end RoutePattern
