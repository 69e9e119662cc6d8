import RoutePattern.Document.Yaml.Source

/-!
Text without quotes. It may go over several lines, and it ends where a mark of the document stands.
-/

namespace RoutePattern
namespace Document
namespace Yaml
namespace PlainText

/-- The marks inside of brackets that end a text. -/
def isFlowMark (c : Char) : Bool := [',', '[', ']', '{', '}'].contains c

/-- Whether a text ends before a character that another one follows. A colon only ends it in front of
something that is no part of a text. -/
def endsBefore (inFlow : Bool) (c : Char) (next : Option Char) : Bool :=
  isBlank c || isBreak c ||
    (c == ':' && (endsWord next || (inFlow && next.any isFlowMark))) ||
    (inFlow && (isFlowMark c || c == '?'))

def stretch (inFlow : Bool) : Text → Nat
  | [] => 0
  | c :: rest => if endsBefore inFlow c rest.head? then 0 else stretch inFlow rest + 1

/-- The breaks of empty lines; nothing where a mark between documents follows. -/
def emptyLines : Nat → Source → Option Text × Source
  | 0, s => (some [], s)
  | fuel + 1, s =>
    let s := s.skipSpaces
    match s.lineBreak? with
    | none => (some [], s)
    | some (c, s) =>
      if s.isSeparator then (none, s)
      else
        let (others, s) := emptyLines fuel s
        (others.map (c :: ·), s)

/-- Spaces, or what line breaks become; whether there was a line break; and what follows. The text
does not go on where the first part is empty. -/
def gap (s : Source) : Text × Bool × Source :=
  let (spaces, s) := s.span (· == ' ')
  match s.lineBreak? with
  | none => (spaces, false, s)
  | some (first, s) =>
    if s.isSeparator then ([], true, s)
    else
      let (others, s) := emptyLines (s.rest.length + 1) s
      ((others.map (folded first)).getD [], true, s)

def body (inFlow : Bool) (indent : Int) : Nat → Source → Text × Bool × Source
  | 0, s => ([], false, s)
  | fuel + 1, s =>
    let length := stretch inFlow s.rest
    let text := s.rest.take length
    let (between, broken, after) := gap (s.drop length)
    if between.isEmpty || after.peek = some '#' || (!inFlow && after.place.column < indent) ||
        stretch inFlow after.rest = 0 then
      (text, broken, after)
    else
      let (more, broken, after) := body inFlow indent fuel after
      (text ++ between ++ more, broken, after)

/-- Reads the text that comes first. Outside of brackets it ends before a line that stands less deep
than `indent`. -/
def read (inFlow : Bool) (indent : Int) (s : Source) : Text × Bool × Source :=
  body inFlow indent (s.rest.length + 1) s

end PlainText
end Yaml
end Document
end RoutePattern
