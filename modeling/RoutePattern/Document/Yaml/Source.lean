import RoutePattern.Text.Line

/-!
The text of a YAML document from some place on, and the characters that divide it.
-/

namespace RoutePattern
namespace Document
namespace Yaml

/-- A place in a document: the characters before it, the lines before its line, and the characters
before it on its line. -/
structure Place where
  index : Nat
  line : Nat
  column : Nat
deriving DecidableEq, Repr

namespace Place

def start : Place := ⟨0, 0, 0⟩

def describe (file : Text) (p : Place) : Text :=
  "  in \"" ++ file ++ "\", line " ++ Text.ofNat (p.line + 1) ++ ", column " ++
    Text.ofNat (p.column + 1)

end Place

def isBreak (c : Char) : Bool := c == '\n' || c == '\u0085' || c == '\u2028' || c == '\u2029'

def isBlank (c : Char) : Bool := c == ' ' || c == '\t'

/-- Whether a line ends where the character stands, or the whole text does. -/
def endsLine (c : Option Char) : Bool := c.all isBreak

/-- Whether an argument ends there: before a space or at the end of its line. -/
def endsArgument (c : Option Char) : Bool := c.all fun c => c == ' ' || isBreak c

/-- Whether a word ends there: before a blank or at the end of its line. -/
def endsWord (c : Option Char) : Bool := c.all fun c => isBlank c || isBreak c

def isNameChar (c : Char) : Bool := c.isAlphanum || c == '-' || c == '_'

/-- The place behind a character. A byte order mark takes no column. -/
def Place.after (c : Char) (p : Place) : Place :=
  if isBreak c then ⟨p.index + 1, p.line + 1, 0⟩
  else if c == '\uFEFF' then ⟨p.index + 1, p.line, p.column⟩
  else ⟨p.index + 1, p.line, p.column + 1⟩

structure Source where
  rest : Text
  place : Place

namespace Source

def ofText (text : Text) : Source := ⟨text, .start⟩

def peek (s : Source) : Option Char := s.rest.head?

def peekAt (k : Nat) (s : Source) : Option Char := s.rest[k]?

def next (s : Source) : Source :=
  match s.rest with
  | [] => s
  | c :: rest => ⟨rest, s.place.after c⟩

def drop : Nat → Source → Source
  | 0, s => s
  | n + 1, s => drop n s.next

/-- The source from the first place on where a character is of another kind. The kind may depend on
the place. -/
def skipWhere (p : Place → Char → Bool) (s : Source) : Source :=
  go s.rest s.place
where
  go : Text → Place → Source
    | [], place => ⟨[], place⟩
    | c :: rest, place => if p place c then go rest (place.after c) else ⟨c :: rest, place⟩

def skip (p : Char → Bool) (s : Source) : Source := s.skipWhere fun _ => p

/-- The characters of a kind that come first, and the source behind them. -/
def span (p : Char → Bool) (s : Source) : Text × Source := (s.rest.takeWhile p, s.skip p)

def skipSpaces (s : Source) : Source := s.skip (· == ' ')

def skipLine (s : Source) : Source := s.skip (!isBreak ·)

def skipComment (s : Source) : Source := if s.peek = some '#' then s.skipLine else s

/-- The break that comes first, and the source behind it. The breaks of single lines count as
newlines; those of lines and of paragraphs in their proper sense stay what they are. -/
def lineBreak? (s : Source) : Option (Char × Source) :=
  match s.peek with
  | some c =>
    if c == '\u2028' || c == '\u2029' then some (c, s.next)
    else if isBreak c then some ('\n', s.next)
    else none
  | none => none

def isAlone (mark : Char) (s : Source) : Bool :=
  s.rest.take 3 == [mark, mark, mark] && endsWord (s.peekAt 3)

/-- Whether a mark between documents stands there. -/
def isSeparator (s : Source) : Bool := s.isAlone '-' || s.isAlone '.'

end Source

/-- What line breaks in running text become: a single newline is a space, any other break stays, and
so do the breaks of empty lines behind the first one. -/
def folded (first : Char) (others : Text) : Text :=
  if first ≠ '\n' then first :: others
  else if others.isEmpty then [' ']
  else others

end Yaml
end Document
end RoutePattern
