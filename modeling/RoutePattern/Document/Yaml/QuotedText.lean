import RoutePattern.Document.Yaml.Fault

/-!
Text in quotes. A line break in it is a space, and empty lines are the breaks that they are; in double
quotes a backslash starts an escape, in single quotes two quotes are one.
-/

namespace RoutePattern
namespace Document
namespace Yaml
namespace QuotedText

def escapes : List (Char × Char) :=
  [('0', '\x00'), ('a', '\x07'), ('b', '\x08'), ('t', '\t'), ('\t', '\t'), ('n', '\n'),
    ('v', '\x0b'), ('f', '\x0c'), ('r', '\r'), ('e', '\x1b'), (' ', ' '), ('"', '"'), ('\\', '\\'),
    ('/', '/'), ('N', '\u0085'), ('_', '\u00a0'), ('L', '\u2028'), ('P', '\u2029')]

def emptyLines (opened : Place) : Nat → Source → Result (Text × Source)
  | 0, s => .ok ([], s)
  | fuel + 1, s =>
    if s.isSeparator then fail (.during .quoted opened .separator s.place)
    else
      let s := s.skip isBlank
      match s.lineBreak? with
      | some (c, s) => (emptyLines opened fuel s).map fun (cs, s) => (c :: cs, s)
      | none => .ok ([], s)

def emptyLinesOf (opened : Place) (s : Source) : Result (Text × Source) :=
  emptyLines opened (s.rest.length + 1) s

def numbered (opened : Place) (count : Nat) (s : Source) : Result (Text × Source) :=
  let digits := (s.rest.take count).takeWhile (Whole.isDigitIn 16)
  let code := Text.digitsToNat 16 digits
  if digits.length < count then
    fail (.during .doubleQuoted opened (.expected (.hexDigits count) (s.peekAt digits.length)) s.place)
  else if 0x10FFFF < code then
    .error (.refusal (.raised .badValue "chr() arg not in range(0x110000)"))
  else .ok ([Char.ofNat code], s.drop count)

/-- What the characters behind a backslash stand for. A line break stands for nothing. -/
def escape (opened : Place) (s : Source) : Result (Text × Source) :=
  match s.peek with
  | some 'x' => numbered opened 2 s.next
  | some 'u' => numbered opened 4 s.next
  | some 'U' => numbered opened 8 s.next
  | found =>
    match found.bind (Table.get? · escapes), s.lineBreak? with
    | some c, _ => .ok ([c], s.next)
    | none, some (_, s) => emptyLinesOf opened s
    | none, none => fail (.during .doubleQuoted opened (.badEscape found) s.place)

/-- Blanks between two words, or what the line breaks between them become. -/
def gap (opened : Place) (s : Source) : Result (Text × Source) :=
  let (blanks, s) := s.span isBlank
  match s.lineBreak? with
  | some (first, s) => (emptyLinesOf opened s).map fun (others, s) => (folded first others, s)
  | none =>
    if s.peek.isNone then fail (.during .quoted opened .unclosed s.place) else .ok (blanks, s)

def body (quote : Char) (opened : Place) : Nat → Source → Result (Text × Source)
  | 0, s => fail (.during .quoted opened .unclosed s.place)
  | fuel + 1, s => do
    let more (part : Text × Source) : Result (Text × Source) :=
      (body quote opened fuel part.2).map fun (text, s) => (part.1 ++ text, s)
    match s.peek with
    | none => fail (.during .quoted opened .unclosed s.place)
    | some c =>
      if c = quote then
        if quote = '\'' && s.peekAt 1 = some quote then more ([quote], s.drop 2)
        else return ([], s.next)
      else if quote = '"' && c = '\\' then more (← escape opened s.next)
      else if isBlank c || isBreak c then more (← gap opened s)
      else more ([c], s.next)

/-- The text between the quote that comes first and the one that closes it. -/
def read (s : Source) : Result (Text × Source) :=
  body (s.peek.getD '"') s.place (s.rest.length + 1) s.next

end QuotedText
end Yaml
end Document
end RoutePattern
