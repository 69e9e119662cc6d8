import RoutePattern.Pattern.Capture
import RoutePattern.Target
import RoutePattern.Value.Refusal

/-!
Matching: the steps of a layout take path segments from the left, each as many as it can and none
given back, and read the query by key.
-/

namespace RoutePattern

/-- What a capture took: one value, or a list of values. -/
inductive Captured where
  | one (text : Text)
  | many (texts : List Text)
deriving DecidableEq, Repr

/-- The captured values by key, in the order in which they were captured. -/
abbrev Params := Table Key Captured

/-- The place in a list that a number stands for: a negative one counts from the end. -/
def placeOf {α : Type} (xs : List α) (n : Int) : Option Nat :=
  if 0 ≤ n then some n.toNat else if n.natAbs ≤ xs.length then some (xs.length - n.natAbs) else none

/-- What a list holds from a number on. One that counts to before its beginning leaves all of it. -/
def restFrom {α : Type} (xs : List α) (n : Int) : List α := xs.drop ((placeOf xs n).getD 0)

/-- A place in a list of segments. `offset` counts the characters that were already taken from the
segment at `index`. Both may be negative where a cursor is set by hand, and then count from the end. -/
structure Cursor where
  segments : List Text
  index : Int
  offset : Int
deriving DecidableEq, Repr

namespace Cursor

def start (segments : List Text) : Cursor := ⟨segments, 0, 0⟩

def isExhausted (c : Cursor) : Bool := c.segments.length ≤ c.index

def isBefore (c : Cursor) : Bool := (placeOf c.segments c.index).isNone

def head? (c : Cursor) : Option Text :=
  ((placeOf c.segments c.index).bind fun i => c.segments[i]?).map (restFrom · c.offset)

def remaining (c : Cursor) : List Text :=
  match c.head? with
  | some head => head :: restFrom c.segments (c.index + 1)
  | none => []

def advance (count : Int) (c : Cursor) : Cursor :=
  ⟨c.segments, min (c.index + count) c.segments.length, 0⟩

def strip (count : Int) (c : Cursor) : Cursor := ⟨c.segments, c.index, c.offset + count⟩

def exhaust (c : Cursor) : Cursor := ⟨c.segments, c.segments.length, 0⟩

end Cursor

def nextLeading : List Part → Text
  | [] => []
  | part :: _ => part.leading

/-- The value of a capture and what follows it. The value takes at least one character and ends
before the next occurrence of `stop`; without one, or for an empty `stop`, it takes everything. -/
def cutValue (stop text : Text) : Text × Text :=
  if stop.isEmpty then (text, [])
  else
    match Text.indexOf stop (text.drop 1) with
    | some i => (text.take (i + 1), text.drop (i + 1))
    | none => (text, [])

/-- Matches parts against one text, all of which they have to take. -/
def matchText : List Part → Text → Option Params
  | [], text => if text.isEmpty then some [] else none
  | .literal literal optional :: parts, text =>
    match Text.after? literal text with
    | some rest => matchText parts rest
    | none => if optional then matchText parts text else none
  | .capture c :: parts, text =>
    match Text.after? c.lead text with
    | none => if c.optional then matchText parts text else none
    | some body =>
      let (value, rest) := cutValue (nextLeading parts) body
      if value.isEmpty then if c.optional then matchText parts rest else none
      else
        (matchText parts rest).map fun params =>
          Table.putAll [(c.key, if c.multiple then .many [value] else .one value)] params

/-- A capture that has a segment of its own, or all remaining ones if it repeats. -/
def matchCapture (c : Capture) (cursor : Cursor) : Option (Params × Cursor) :=
  match cursor.head?.bind (Text.after? c.lead) with
  | none =>
    if c.optional then some (if c.multiple then [(c.key, .many [])] else [], cursor) else none
  | some _ =>
    let stripped := cursor.strip c.lead.length
    if c.multiple then
      let values := stripped.remaining.filter (!·.isEmpty)
      if values.isEmpty && !c.optional then none
      else some ([(c.key, .many values)], stripped.exhaust)
    else
      let value := stripped.head?.getD []
      if value.isEmpty then if c.optional then some ([], stripped.advance 1) else none
      else some ([(c.key, .one value)], stripped.advance 1)

def matchSingle (part : Part) (cursor : Cursor) : Option (Params × Cursor) :=
  match part with
  | .literal text optional =>
    if cursor.head? = some text then some ([], cursor.advance 1)
    else if optional then some ([], cursor)
    else none
  | .capture c => matchCapture c cursor

def matchCompound (parts : List Part) (cursor : Cursor) : Option (Params × Cursor) :=
  match cursor.head? with
  | none => if parts.all Part.isOptional then some ([], cursor) else none
  | some head => (matchText parts head).map (·, cursor.advance 1)

def matchValues (part : Part) (values : List Text) : Option Params :=
  match part with
  | .literal text optional =>
    match values with
    | value :: _ => if value = text then some [] else none
    | [] => if optional then some [] else none
  | .capture c =>
    (values.mapM (Text.after? c.lead)).bind fun bodies =>
      match bodies.filter (!·.isEmpty) with
      | [] =>
        if c.optional then some (if c.multiple then [(c.key, .many [])] else []) else none
      | first :: others =>
        some [(c.key, if c.multiple then .many (first :: others) else .one first)]

/-- The values of one query key against the parts of its entry; several parts look at the first
value only. -/
def matchEntry (parts : List Part) (values : List Text) : Option Params :=
  match parts with
  | [part] => matchValues part values
  | _ =>
    match values with
    | [] => if parts.all Part.isOptional then some [] else none
    | value :: _ => matchText parts value

def matchQuery (query : Query) : List (Text × List Part) → Option Params
  | [] => some []
  | (key, parts) :: rest =>
    (matchEntry parts (query.all key)).bind fun first =>
      (matchQuery query rest).map (Table.putAll first)

mutual

/-- What a step captures from a cursor on, and where it leaves the cursor. -/
def Step.run (query : Query) (cursor : Cursor) : Step → Option (Params × Cursor)
  | .single part => matchSingle part cursor
  | .compound parts => matchCompound parts cursor
  | .query entries => (matchQuery query entries).map (·, cursor)
  | .nested optional steps =>
    match runSteps query cursor steps with
    | some result => some result
    | none => if optional then some ([], cursor) else none

/-- Steps one after the other; a later capture of the same key replaces an earlier one. -/
def runSteps (query : Query) (cursor : Cursor) : List Step → Option (Params × Cursor)
  | [] => some ([], cursor)
  | step :: rest =>
    (step.run query cursor).bind fun (first, next) =>
      (runSteps query next rest).map fun (params, last) => (Table.putAll first params, last)

end

mutual

/-- Whether a step reads a segment; none where the query makes it fail before that. -/
def Step.readsSegment? (query : Query) : Step → Option Bool
  | .single _ => some true
  | .compound _ => some true
  | .query entries => (matchQuery query entries).map fun _ => false
  | .nested optional steps =>
    match readSegment? query steps with
    | some reads => some reads
    | none => if optional then some false else none

/-- Whether one of the steps reads a segment; none where the query makes them fail before that. -/
def readSegment? (query : Query) : List Step → Option Bool
  | [] => some false
  | step :: rest => (step.readsSegment? query).bind fun reads =>
      if reads then some true else readSegment? query rest

end

/-- A pattern made ready to match. With `atEnd` a match has to take every segment. -/
structure Matcher where
  steps : List Step
  atEnd : Bool

namespace Matcher

def run (m : Matcher) (query : Query) (cursor : Cursor) : Option (Params × Cursor) :=
  match runSteps query cursor m.steps with
  | some (params, last) => if m.atEnd && !last.isExhausted then none else some (params, last)
  | none => none

/-- Matches from a cursor that was set by hand, if it is not before all segments. Only the query can be
read there. -/
def resume (m : Matcher) (query : Query) (cursor : Cursor) :
    Except Refusal (Option (Params × Cursor)) :=
  if cursor.isBefore && readSegment? query m.steps = some true then .error .beforeSegments
  else .ok (m.run query cursor)

def accept (m : Matcher) (segments : List Text) (query : Query) : Option Params :=
  (m.run query (.start segments)).map (·.1)

end Matcher

def Pattern.matcher {σ : Type} (p : Pattern σ) (atEnd : Bool) : Except (LayoutError σ) Matcher :=
  p.layout.toldSteps.map (⟨·, atEnd⟩)

end RoutePattern
