import RoutePattern.Document.Yaml.PlainText
import RoutePattern.Document.Yaml.Property
import RoutePattern.Document.Yaml.QuotedText

/-!
The tokens of a YAML document, found one after the other. That a text is a key is only known at the
colon behind it, so tokens wait as long as one of them may turn out to be one; where blocks start and
end is told by how deep their lines stand.
-/

namespace RoutePattern
namespace Document
namespace Yaml

inductive TokenKind where
  | directive (directive : Directive)
  | documentStart
  | documentEnd
  | streamEnd
  | blockListStart
  | blockMappingStart
  | blockEnd
  | flowListStart
  | flowMappingStart
  | flowListEnd
  | flowMappingEnd
  | key
  | value
  | blockItem
  | flowItem
  | reference (name : Text)
  | anchor (name : Text)
  | tag (name : TagName)
  | scalar (text : Text) (plain : Bool)
deriving DecidableEq, Repr

namespace TokenKind

def name : TokenKind → Text
  | directive _ => "<directive>"
  | documentStart => "<document start>"
  | documentEnd => "<document end>"
  | streamEnd => "<stream end>"
  | blockListStart => "<block sequence start>"
  | blockMappingStart => "<block mapping start>"
  | blockEnd => "<block end>"
  | flowListStart => "["
  | flowMappingStart => "\x7b"
  | flowListEnd => "]"
  | flowMappingEnd => "\x7d"
  | key => "?"
  | value => ":"
  | blockItem => "-"
  | flowItem => ","
  | reference _ => "<alias>"
  | anchor _ => "<anchor>"
  | tag _ => "<tag>"
  | scalar .. => "<scalar>"

end TokenKind

structure Token where
  kind : TokenKind
  start : Place
  stop : Place

/-- A token that may turn out to be a key, by its number. It has to be one where nothing else can
start a line of a block. -/
structure KeyCandidate where
  number : Nat
  isRequired : Bool
  place : Place

/-- What was found of a document and what is left. `taken` counts the tokens that were used, `ready`
are those that were not. `depth` counts the brackets that are open, and `candidates` has at most one
possible key for every depth. `indent` is how deep the innermost block stands, `outer` tells it of the
blocks around. -/
structure Tokens where
  source : Source
  ready : List Token
  taken : Nat
  depth : Nat
  indent : Int
  outer : List Int
  mayBeKey : Bool
  candidates : Table Nat KeyCandidate
  isDone : Bool

namespace Tokens

def ofText (text : Text) : Tokens := ⟨.ofText text, [], 0, 0, -1, [], true, [], false⟩

def place (t : Tokens) : Place := t.source.place

def add (kind : TokenKind) (start stop : Place) (t : Tokens) : Tokens :=
  { t with ready := t.ready ++ [⟨kind, start, stop⟩] }

def addHere (kind : TokenKind) (t : Tokens) : Tokens := t.add kind t.place t.place

def addUpTo (after : Source) (kind : TokenKind) (t : Tokens) : Tokens :=
  { t with source := after, ready := t.ready ++ [⟨kind, t.place, after.place⟩] }

def addMark (length : Nat) (kind : TokenKind) (t : Tokens) : Tokens :=
  t.addUpTo (t.source.drop length) kind

def insertAt (number : Nat) (kind : TokenKind) (place : Place) (t : Tokens) : Tokens :=
  let (before, after) := t.ready.splitAt (number - t.taken)
  { t with ready := before ++ ⟨kind, place, place⟩ :: after }

/-- A key is on one line and has at most 1024 characters. -/
def isStale (t : Tokens) (k : KeyCandidate) : Bool :=
  k.place.line != t.place.line || k.place.index + 1024 < t.place.index

/-- Gives up the possible keys of some kind, none of which may be required. -/
def giveUp (which : Nat × KeyCandidate → Bool) (t : Tokens) : Result Tokens :=
  match t.candidates.find? fun entry => which entry && entry.2.isRequired with
  | some (_, k) => fail (.during .key k.place .noColon t.place)
  | none => .ok { t with candidates := t.candidates.filter (!which ·) }

def giveUpStale (t : Tokens) : Result Tokens := t.giveUp fun entry => isStale t entry.2

def giveUpKey (t : Tokens) : Result Tokens := t.giveUp fun entry => entry.1 == t.depth

/-- The next token may be a key, if one is allowed there. -/
def maySaveKey (t : Tokens) : Result Tokens :=
  if !t.mayBeKey then .ok t
  else
    let isRequired := t.depth == 0 && t.indent == (t.place.column : Int)
    let k : KeyCandidate := ⟨t.taken + t.ready.length, isRequired, t.place⟩
    t.giveUpKey.map fun t => { t with candidates := Table.put t.depth k t.candidates }

def endBlocks (column : Int) (t : Tokens) : Tokens :=
  if t.depth ≠ 0 then t else go t.outer t
where
  go : List Int → Tokens → Tokens
    | [], t => t
    | indent :: outer, t =>
      if column < t.indent then go outer ({ t with indent, outer }.addHere .blockEnd) else t

/-- Starts a block at a column, unless one stands that deep. -/
def startBlock (column : Nat) (start : Tokens → Tokens) (t : Tokens) : Tokens :=
  if t.depth = 0 ∧ t.indent < column then
    start { t with indent := column, outer := t.indent :: t.outer }
  else t

def streamEnd (t : Tokens) : Result Tokens := do
  let t ← (t.endBlocks (-1)).giveUpKey
  return { t with mayBeKey := false, candidates := [], isDone := true }.addHere .streamEnd

def betweenDocuments (t : Tokens) : Result Tokens :=
  (t.endBlocks (-1)).giveUpKey.map fun t => { t with mayBeKey := false }

def directive (t : Tokens) : Result Tokens := do
  let t ← t.betweenDocuments
  let (d, after) ← Property.directive t.source
  return t.addUpTo after (.directive d)

def separator (kind : TokenKind) (t : Tokens) : Result Tokens :=
  t.betweenDocuments.map (addMark 3 kind)

def opening (kind : TokenKind) (t : Tokens) : Result Tokens :=
  t.maySaveKey.map fun t => { t with depth := t.depth + 1, mayBeKey := true }.addMark 1 kind

def closing (kind : TokenKind) (t : Tokens) : Result Tokens :=
  t.giveUpKey.map fun t => { t with depth := t.depth - 1, mayBeKey := false }.addMark 1 kind

def flowItem (t : Tokens) : Result Tokens :=
  { t with mayBeKey := true }.giveUpKey.map (addMark 1 .flowItem)

/-- A mark that starts an item or a key. Outside of brackets it has to be where a key may be. -/
def blockMark (kind block : TokenKind) (misplaced : Problem) (keyFollows : Bool) (t : Tokens) :
    Result Tokens :=
  if t.depth = 0 ∧ !t.mayBeKey then fail (.plain misplaced t.place)
  else
    let t := t.startBlock t.place.column (addHere block)
    { t with mayBeKey := keyFollows }.giveUpKey.map (addMark 1 kind)

/-- The colon in front of a value. What may have been a key in front of it is one. -/
def value (t : Tokens) : Result Tokens :=
  match Table.get? t.depth t.candidates with
  | some k =>
    let t := { t with candidates := t.candidates.filter (·.1 != t.depth), mayBeKey := false }
    let t := t.insertAt k.number .key k.place
    .ok ((t.startBlock k.place.column (insertAt k.number .blockMappingStart k.place)).addMark 1 .value)
  | none => t.blockMark .value .blockMappingStart .misplacedValue (t.depth == 0)

def part (read : Source → Result (TokenKind × Source)) (t : Tokens) : Result Tokens := do
  let t ← t.maySaveKey
  let (kind, after) ← read t.source
  return { t with mayBeKey := false }.addUpTo after kind

def quotedText (t : Tokens) : Result Tokens :=
  t.part fun s => (QuotedText.read s).map fun (text, after) => (.scalar text false, after)

/-- A text without quotes. If its line ends behind it, a key may follow. -/
def plainText (t : Tokens) : Result Tokens :=
  t.maySaveKey.map fun t =>
    let (text, broken, after) := PlainText.read (t.depth != 0) (t.indent + 1) t.source
    { t with mayBeKey := broken }.addUpTo after (.scalar text true)

def blockText (t : Tokens) : Result Tokens := do
  let t ← { t with mayBeKey := true }.giveUpKey
  let (text, after) ← BlockText.read t.indent t.source
  return t.addUpTo after (.scalar text false)

/-- The source at the next token, behind spaces, comments and line ends; and whether a line ended. -/
def toNext : Nat → Source → Bool × Source
  | 0, s => (false, s)
  | fuel + 1, s =>
    let s := s.skipSpaces.skipComment
    match s.lineBreak? with
    | some (_, s) => (true, (toNext fuel s).2)
    | none => (false, s)

def indicators : List Char :=
  ['-', '?', ':', ',', '[', ']', '{', '}', '#', '&', '*', '!', '|', '>', '\'', '"', '%', '@', '\x60']

/-- Whether a text without quotes starts with a character that another one follows. -/
def startsPlain (inFlow : Bool) (c : Char) (next : Option Char) : Bool :=
  !(isBlank c || isBreak c || indicators.contains c) ||
    (!endsWord next && (c == '-' || (!inFlow && (c == '?' || c == ':'))))

/-- Finds the token that starts with a character, at which the source stands. -/
def found (c : Char) (t : Tokens) : Result Tokens :=
  let s := t.source
  let inFlow := t.depth != 0
  let atStart := t.place.column == 0
  let isMark := endsWord (s.peekAt 1)
  if c = '%' ∧ atStart then t.directive
  else if c = '-' ∧ atStart ∧ s.isAlone '-' then t.separator .documentStart
  else if c = '.' ∧ atStart ∧ s.isAlone '.' then t.separator .documentEnd
  else if c = '[' then t.opening .flowListStart
  else if c = '{' then t.opening .flowMappingStart
  else if c = ']' then t.closing .flowListEnd
  else if c = '}' then t.closing .flowMappingEnd
  else if c = ',' then t.flowItem
  else if c = '-' ∧ isMark then t.blockMark .blockItem .blockListStart .misplacedItem true
  else if c = '?' ∧ (inFlow || isMark) then
    t.blockMark .key .blockMappingStart .misplacedKey !inFlow
  else if c = ':' ∧ (inFlow || isMark) then t.value
  else if c = '*' then t.part fun s => (Property.name .reference s).map fun (n, after) => (.reference n, after)
  else if c = '&' then
    t.part fun s => (Property.name .anchor s).map fun (n, after) => (.anchor n, after)
  else if c = '!' then t.part fun s => (Property.tag s).map fun (n, after) => (.tag n, after)
  else if (c = '|' ∨ c = '>') ∧ !inFlow then t.blockText
  else if c = '\'' ∨ c = '"' then t.quotedText
  else if startsPlain inFlow c (s.peekAt 1) then t.plainText
  else fail (.at (some (.token, none)) (.badStart c) t.place)

def findMore (t : Tokens) : Result Tokens := do
  let start := if t.place.index = 0 ∧ t.source.peek = some '\uFEFF' then t.source.next else t.source
  let (broken, source) := toNext (start.rest.length + 1) start
  let t := { t with source, mayBeKey := t.mayBeKey || (broken && t.depth == 0) }
  let t ← t.giveUpStale
  let t := t.endBlocks t.place.column
  match t.source.peek with
  | none => t.streamEnd
  | some c => t.found c

/-- Finds tokens until there is one that cannot turn out to be a key. -/
def fill : Nat → Tokens → Result Tokens
  | 0, t => .ok t
  | fuel + 1, t =>
    if t.isDone then .ok t
    else if t.ready.isEmpty then t.findMore.bind (fill fuel)
    else do
      let t ← t.giveUpStale
      if t.candidates.any fun (_, k) => k.number = t.taken then t.findMore.bind (fill fuel)
      else return t

def peek (t : Tokens) : Result (Token × Tokens) :=
  (t.fill (t.source.rest.length + 2)).map fun t =>
    (t.ready.head?.getD ⟨.streamEnd, t.place, t.place⟩, t)

def tail (t : Tokens) : Tokens := { t with ready := t.ready.tail, taken := t.taken + 1 }

end Tokens

end Yaml
end Document
end RoutePattern
