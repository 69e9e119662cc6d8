import RoutePattern.Document.Yaml.BlockText
import RoutePattern.Text.Utf8

namespace RoutePattern
namespace Document
namespace Yaml

/-- A tag as it is written: a handle, if it has one, and what follows that. -/
structure TagName where
  handle : Option Text
  suffix : Text
deriving DecidableEq, Repr

/-- A line in front of a document: the version of the language, a handle with what it stands for, or
anything else. -/
inductive Directive where
  | version (major minor : Nat)
  | handle (name meaning : Text)
  | other (name : Text)
deriving DecidableEq, Repr

namespace Property

/-- The name of an anchor, or of what an alias stands for, behind its mark. -/
def name (activity : Activity) (s : Source) : Result (Text × Source) :=
  let (name, after) := s.next.span isNameChar
  let isEnd := endsWord after.peek || after.peek.any ['?', ':', ',', ']', '}', '%', '@', '\x60'].contains
  if name.isEmpty || !isEnd then
    fail (.during activity s.place (.expected .nameChar after.peek) after.place)
  else .ok (name, after)

def isUriChar (c : Char) : Bool :=
  c.isAlphanum || "-;/?:@&=+$,_.!~*'()[]".toList.contains c

/-- The bytes that are written in hexadecimal digits behind percent signs. -/
def escapedBytes (activity : Activity) (opened : Place) : Nat → Source → Result (List Nat × Source)
  | 0, s => .ok ([], s)
  | fuel + 1, s =>
    if s.peek ≠ some '%' then .ok ([], s)
    else
      let s := s.next
      let digits := (s.rest.take 2).takeWhile (Whole.isDigitIn 16)
      if digits.length < 2 then
        fail (.during activity opened (.expected .uriEscape (s.peekAt digits.length)) s.place)
      else
        (escapedBytes activity opened fuel (s.drop 2)).map fun (bytes, s) =>
          (Text.digitsToNat 16 digits :: bytes, s)

def uriParts (activity : Activity) (opened : Place) : Nat → Source → Result (Text × Source)
  | 0, s => .ok ([], s)
  | fuel + 1, s => do
    let (part, after) := s.span isUriChar
    if after.peek ≠ some '%' then return (part, after)
    else
      let (bytes, rest) ← escapedBytes activity opened (after.rest.length + 1) after
      let escaped := Utf8.decode none bytes
      if Utf8.encode escaped ≠ bytes then fail (.during activity opened .badBytes after.place)
      else
        let (others, rest) ← uriParts activity opened fuel rest
        return (part ++ escaped ++ others, rest)

/-- An address, of which there has to be something. -/
def uri (activity parsing : Activity) (opened : Place) (s : Source) : Result (Text × Source) := do
  let (text, after) ← uriParts activity opened (s.rest.length + 1) s
  if s.place.index = after.place.index then
    fail (.during parsing opened (.expected .uri s.peek) s.place)
  else return (text, after)

/-- A handle: one exclamation mark, or two around a name. -/
def handle (activity : Activity) (opened : Place) (s : Source) : Result (Text × Source) :=
  if s.peek ≠ some '!' then fail (.during activity opened (.expected .exclamation s.peek) s.place)
  else if s.peekAt 1 = some ' ' then .ok (['!'], s.next)
  else
    let (name, after) := s.next.span isNameChar
    if after.peek = some '!' then .ok ('!' :: name ++ ['!'], after.next)
    else fail (.during activity opened (.expected .exclamation after.peek) after.place)

def tagName (s : Source) : Result (TagName × Source) :=
  if s.peekAt 1 = some '<' then do
    let (suffix, after) ← uri .tag .tagUri s.place (s.drop 2)
    if after.peek ≠ some '>' then
      fail (.during .tagUri s.place (.expected .closingAngle after.peek) after.place)
    else return (⟨none, suffix⟩, after.next)
  else if endsWord (s.peekAt 1) then .ok (⟨none, ['!']⟩, s.next)
  else do
    let word := s.next.rest.takeWhile fun c => !endsArgument (some c)
    let (handle, after) ← if word.contains '!' then handle .tag s.place s else .ok (['!'], s.next)
    let (suffix, after) ← uri .tag .tagUri s.place after
    return (⟨some handle, suffix⟩, after)

def tag (s : Source) : Result (TagName × Source) := do
  let (t, after) ← tagName s
  if endsArgument after.peek then return (t, after)
  else fail (.during .tag s.place (.expected .space after.peek) after.place)

def versionPart (opened : Place) (s : Source) : Result (Nat × Source) :=
  let (digits, after) := s.span Char.isDigit
  if digits.isEmpty then fail (.during .directive opened (.expected .digit s.peek) s.place)
  else .ok (Text.digitsToNat 10 digits, after)

def version (opened : Place) (s : Source) : Result (Directive × Source) := do
  let (major, s) ← versionPart opened s.skipSpaces
  if s.peek ≠ some '.' then
    fail (.during .directive opened (.expected .digitOrPoint s.peek) s.place)
  else
    let (minor, s) ← versionPart opened s.next
    if endsArgument s.peek then return (.version major minor, s)
    else fail (.during .directive opened (.expected .digitOrSpace s.peek) s.place)

def handleMeaning (opened : Place) (s : Source) : Result (Directive × Source) := do
  let (name, s) ← handle .directive opened s.skipSpaces
  if s.peek ≠ some ' ' then fail (.during .directive opened (.expected .space s.peek) s.place)
  else
    let (meaning, s) ← uri .directive .directiveUri opened s.skipSpaces
    if endsArgument s.peek then return (.handle name meaning, s)
    else fail (.during .directive opened (.expected .space s.peek) s.place)

def directive (s : Source) : Result (Directive × Source) := do
  let (name, after) := s.next.span isNameChar
  if name.isEmpty || !endsArgument after.peek then
    fail (.during .directive s.place (.expected .nameChar after.peek) after.place)
  else
    let (d, after) ←
      if name == "YAML".toList then version s.place after
      else if name == "TAG".toList then handleMeaning s.place after
      else .ok (Directive.other name, after.skipLine)
    return (d, ← BlockText.restOfLine .directive s.place after)

end Property
end Yaml
end Document
end RoutePattern
