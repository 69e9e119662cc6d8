import RoutePattern.Text

/-!
How alike two texts are: the share of their characters that stand in common blocks. The longest
common block counts first, and then the longest ones on either side of it.
-/

namespace RoutePattern
namespace Text

def commonStart : Text → Text → Nat
  | a :: as, b :: bs => if a = b then commonStart as bs + 1 else 0
  | _, _ => 0

/-- A stretch that two texts have in common: where it starts in each, and its length. -/
structure Block where
  first : Nat
  second : Nat
  length : Nat
deriving DecidableEq, Repr

/-- The longer of two blocks, and the earlier one of two with the same length. -/
def Block.longer (b c : Block) : Block := if b.length < c.length then c else b

/-- The first longest block that the beginning of one text has with another. -/
def blockAt (i : Nat) (s : Text) (j : Nat) : Text → Block
  | [] => ⟨i, j, 0⟩
  | c :: rest => (Block.mk i j (commonStart s (c :: rest))).longer (blockAt i s (j + 1) rest)

def longestBlock (i : Nat) (s t : Text) : Block :=
  match s with
  | [] => ⟨i, 0, 0⟩
  | c :: rest => (blockAt i (c :: rest) 0 t).longer (longestBlock (i + 1) rest t)

def commonCount (s t : Text) : Nat :=
  go (s.length + 1) s t
where
  go : Nat → Text → Text → Nat
    | 0, _, _ => 0
    | fuel + 1, s, t =>
      let b := longestBlock 0 s t
      if b.length = 0 then 0
      else
        go fuel (s.take b.first) (t.take b.second) + b.length +
          go fuel (s.drop (b.first + b.length)) (t.drop (b.second + b.length))

/-- A text among others, with the number of characters that it has in common with a given one, and
the number of characters of both. -/
structure Likeness where
  text : Text
  common : Nat
  total : Nat
deriving DecidableEq, Repr

namespace Likeness

def between (given text : Text) : Likeness :=
  ⟨text, commonCount text given, text.length + given.length⟩

/-- Whether three fifths of the characters are common. -/
def isClose (l : Likeness) : Bool := 3 * l.total ≤ 10 * l.common

/-- The order from the closest text on. Of two that are equally close the later one in the order of
texts comes first. -/
def precedes (l m : Likeness) : Bool :=
  if l.common * m.total = m.common * l.total then !before l.text m.text
  else m.common * l.total < l.common * m.total

end Likeness

/-- At most three of some texts, the closest ones to a given text, if they are close to it. -/
def closest (given : Text) (texts : List Text) : List Text :=
  let close := (texts.map (Likeness.between given)).filter Likeness.isClose
  ((close.mergeSort Likeness.precedes).take 3).map Likeness.text

end Text
end RoutePattern
