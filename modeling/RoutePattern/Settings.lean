import RoutePattern.Document.Json
import RoutePattern.Text.Letter
import RoutePattern.Value.Heap

/-!
Settings: nested mappings into which other ones are merged and values are set by path. Mappings are changed
in place, so what is taken over from a source stays one mapping with the source.
-/

namespace RoutePattern

abbrev Settings := Table Value Value

namespace Settings

/-- The settings that a value holds, which has to be a mapping. -/
def ofValue (v : Value) : Except Refusal Settings :=
  match v.entries? with
  | some entries => .ok entries
  | none => .error (.lacking "items" v.qualifiedKind)

def ofTruthy (v : Value) : Except Refusal Settings := if v.isTruthy then ofValue v else .ok []

def find? : List Text → Value → Option Value
  | [], v => some v
  | part :: rest, .map entries => (Table.get? (.text part) entries).bind (find? rest)
  | _ :: _, _ => none

/-- The value at a path whose parts are separated by dots. -/
def get? (path : Text) (s : Settings) : Option Value := find? (Text.split '.' path) (.map s)

/-- The parts of a name between double underscores. `current` is the part under way, last character
first. -/
def nameParts (current : Text) : Text → List Text
  | [] => [current.reverse]
  | [c] => [(c :: current).reverse]
  | c :: d :: rest =>
    if c = '_' && d = '_' then current.reverse :: nameParts [] rest
    else nameParts (c :: current) (d :: rest)

/-- The number that a text writes: with a point a floating-point one, and else a whole one. -/
def number? (text : Text) : Option Value :=
  if text.contains '.' then (FloatText.read? text).map .float
  else (Whole.read 10 text).toOption.map .int

def document? (text : Text) : Except Refusal (Option Value) :=
  if text.head? = some '{' || text.head? = some '[' then
    match Document.Json.read text with
    | .ok v => .ok (some v)
    | .error (.malformed ..) => .ok none
    | .error (.number fault) => .error (.digits fault)
  else .ok none

/-- The value that text stands for: a truth value, nothing, a number, a document or the text. -/
def ofText (text : Text) : Except Refusal Value :=
  let word := Text.lower text
  if word == "true".toList || word == "yes".toList then .ok (.bool true)
  else if word == "false".toList || word == "no".toList then .ok (.bool false)
  else if word == "none".toList || word == "null".toList then .ok .null
  else
    match number? text with
    | some v => .ok v
    | none => (document? text).map (·.getD (.text text))

structure Assignment where
  parts : List Text
  value : Value

/-- What a name of the environment says with its text. The first characters of the name, as many as
there are in the lead, do not count. -/
def assignment (lead name text : Text) : Except Refusal Assignment :=
  (ofText text).map fun v => ⟨nameParts [] (Text.lower (name.drop lead.length)), v⟩

end Settings

namespace Heap

/-- Puts an entry of a source in place: a mapping is merged into a mapping, and anything else replaces what
was there. -/
def mergeEntry (merge : Nat → Nat → Heap → Except Refusal Heap) (target : Nat) (key : Value) (d : Datum)
    (h : Heap) : Except Refusal Heap :=
  match Table.get? key (h.entriesOf target), d with
  | some (.object old), .object new => merge old new h
  | _, _ => .ok (h.set target key d)

/-- Puts the entry at an index of a source in place. The source may change on the way, if it is reached from
the target too, but it must not get more entries. -/
def mergeNext (merge : Nat → Nat → Heap → Except Refusal Heap) (target source size : Nat) (h : Heap)
    (index : Nat) : Except Refusal Heap := do
  match (h.entriesOf source)[index]? with
  | none => return h
  | some (key, d) =>
    let h ← mergeEntry merge target key d h
    if (h.entriesOf source).length = size then return h
    else .error (.raised .abort "dictionary changed size during iteration")

def mergeAt : Nat → Nat → Nat → Heap → Except Refusal Heap
  | 0, _, _, _ => .error (.raised .abort "maximum recursion depth exceeded")
  | depth + 1, target, source, h =>
    let size := (h.entriesOf source).length
    (List.range size).foldlM (mergeNext (mergeAt depth) target source size) h

/-- Merges one mapping into another one. What goes deeper than there are pairs of mappings has come back to
a pair. -/
def merge (target source : Nat) (h : Heap) : Except Refusal Heap :=
  mergeAt (h.length * h.length) target source h

/-- Merges a document into a mapping, if it is one. -/
def mergeGraph (g : Graph) (root : Nat) (h : Heap) : Except Refusal Heap :=
  match h.adopt g with
  | (h, .object source) => h.merge root source
  | (h, _) => .ok h

/-- Sets the value at a path of a mapping. What stands in the way and is no mapping is replaced by a new
one. -/
def put (d : Datum) : List Text → Nat → Heap → Heap
  | [], _, h => h
  | [last], id, h => h.set id (.text last) d
  | part :: rest, id, h =>
    match Table.get? (.text part) (h.entriesOf id) with
    | some (.object inner) => put d rest inner h
    | _ => put d rest h.length (h.set id (.text part) (.object h.length) ++ [[]])

def putAssignment (a : Settings.Assignment) (root : Nat) (h : Heap) : Heap :=
  let (h, d) := h.adopt (.ofValue a.value)
  h.put d a.parts root

def assign (lead name text : Text) (root : Nat) (h : Heap) : Except Refusal Heap :=
  (Settings.assignment lead name text).map fun a => h.putAssignment a root

def assignAll (lead : Text) (names : List (Text × Text)) (root : Nat) (h : Heap) : Except Refusal Heap :=
  (names.filter fun entry => lead.isPrefixOf entry.1).foldlM
    (fun h entry => h.assign lead entry.1 entry.2 root) h

def settings (root : Nat) (h : Heap) : Except Refusal Settings := do
  Settings.ofValue (← h.read (.object root))

end Heap

namespace Settings

/-- Settings by themselves, changed in place. -/
def change (f : Nat → Heap → Except Refusal Heap) (s : Settings) : Except Refusal Settings := do
  let (h, entries) := Heap.allocateEntries s []
  (← f h.length (h ++ [entries])).settings h.length

/-- The settings after a mapping was merged in, which cannot fail where no mapping stands twice. -/
def merge (s : Settings) (source : List (Value × Value)) : Settings :=
  (s.change (Heap.mergeGraph (.ofValue (.map source)))).toOption.getD s

/-- The settings after a value was set under a name of the environment. -/
def assign (lead name text : Text) (s : Settings) : Except Refusal Settings :=
  s.change (Heap.assign lead name text)

end Settings

end RoutePattern
