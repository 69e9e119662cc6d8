import RoutePattern.Document.Yaml.Fault

/-!
Text in blocks: lines that all stand at one depth, behind a bar where they are taken as they are, or
behind an angle where those that follow each other are one.
-/

namespace RoutePattern
namespace Document
namespace Yaml
namespace BlockText

/-- What becomes of the breaks at the end: `keep`, `strip`, or all but one go. -/
inductive Chomping where
  | clip
  | keep
  | strip
deriving DecidableEq, Repr

def chomping (s : Source) : Chomping × Source :=
  match s.peek with
  | some '+' => (.keep, s.next)
  | some '-' => (.strip, s.next)
  | _ => (.clip, s)

def increment (opened : Place) (s : Source) : Result (Option Nat × Source) :=
  match s.peek with
  | some c =>
    if c = '0' then fail (.during .blockText opened .zeroIndent s.place)
    else if c.isDigit then .ok (some (Text.digitsToNat 10 [c]), s.next)
    else .ok (none, s)
  | none => .ok (none, s)

def indicators (opened : Place) (s : Source) : Result (Chomping × Option Nat × Source) := do
  let (first, s) := chomping s
  let (depth, s) ← increment opened s
  let (last, s) := if first = .clip then chomping s else (first, s)
  if endsArgument s.peek then return (last, depth, s)
  else fail (.during .blockText opened (.expected .indicator s.peek) s.place)

/-- The source behind a line on which nothing but a comment stands. -/
def restOfLine (activity : Activity) (opened : Place) (s : Source) : Result Source :=
  let s := s.skipSpaces.skipComment
  if endsLine s.peek then .ok ((s.lineBreak?.map (·.2)).getD s)
  else fail (.during activity opened (.expected .lineEnd s.peek) s.place)

/-- The breaks of empty lines before the first line, how deep the lines stand, and what follows. -/
def firstDepth : Nat → Source → Text × Nat × Source
  | 0, s => ([], 0, s)
  | fuel + 1, s =>
    let s := s.skipSpaces
    let depth := s.place.column
    match s.lineBreak? with
    | none => ([], depth, s)
    | some (c, s) =>
      let (others, deepest, s) := firstDepth fuel s
      (c :: others, max depth deepest, s)

/-- The breaks of empty lines, and the source at the first character at the given depth. -/
def emptyLines (indent : Nat) : Nat → Source → Text × Source
  | 0, s => ([], s)
  | fuel + 1, s =>
    let s := s.skipWhere fun place c => c == ' ' && place.column < indent
    match s.lineBreak? with
    | none => ([], s)
    | some (c, s) =>
      let (others, s) := emptyLines indent fuel s
      (c :: others, s)

/-- The lines that were read, the break behind the last one, the breaks of the empty lines behind it,
and what follows. -/
structure Lines where
  text : Text
  last : Text
  breaks : Text
  source : Source

def isLine (indent : Nat) (s : Source) : Bool := s.place.column == indent && s.peek.isSome

/-- Reads lines, before which there are the breaks of empty ones. Where lines are folded, a newline
between two lines that do not start with a blank is a space, or the breaks of the empty lines
there. -/
def body (folds : Bool) (indent : Nat) : Nat → Text → Source → Lines
  | 0, breaks, s => ⟨[], [], breaks, s⟩
  | fuel + 1, breaks, s =>
    if !isLine indent s then ⟨[], [], breaks, s⟩
    else
      let isFlush := !s.peek.any isBlank
      let (line, s) := s.span (!isBreak ·)
      let last := s.lineBreak?.map (·.1)
      let (others, s) := emptyLines indent (s.rest.length + 1) ((s.lineBreak?.map (·.2)).getD s)
      if !isLine indent s then ⟨breaks ++ line, last.toList, others, s⟩
      else
        let between :=
          if folds && last = some '\n' && isFlush && !s.peek.any isBlank then
            if others.isEmpty then [' '] else []
          else last.toList
        let more := body folds indent fuel others s
        { more with text := breaks ++ line ++ between ++ more.text }

/-- Reads the text behind its mark. `outer` is how deep the surroundings stand. -/
def read (outer : Int) (s : Source) : Result (Text × Source) := do
  let (chomping, depth, after) ← indicators s.place s.next
  let after ← restOfLine .blockText s.place after
  let least := (max (outer + 1) 1).toNat
  let fuel := after.rest.length + 1
  let (indent, breaks, after) :=
    match depth with
    | some n =>
      let (breaks, after) := emptyLines (least + n - 1) fuel after
      (least + n - 1, breaks, after)
    | none =>
      let (breaks, depth, after) := firstDepth fuel after
      (max least depth, breaks, after)
  let lines := body (s.peek = some '>') indent fuel breaks after
  return (lines.text ++ (if chomping = .strip then [] else lines.last) ++
    (if chomping = .keep then lines.breaks else []), lines.source)

end BlockText
end Yaml
end Document
end RoutePattern
