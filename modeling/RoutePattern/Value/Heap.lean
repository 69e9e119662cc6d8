import RoutePattern.Value.Refusal

/-!
Values whose mappings have an identity: a mapping may stand in several places, and then a change to it
shows in all of them.
-/

namespace RoutePattern

/-- A value in which mappings stand by their numbers. -/
inductive Datum where
  | plain (v : Value)
  | list (items : List Datum)
  | tuple (items : List Datum)
  | object (id : Nat)

/-- The entries of all mappings; the number of a mapping is its place. -/
abbrev Heap := List (Table Value Datum)

/-- A value with the mappings in it. -/
structure Graph where
  heap : Heap
  root : Datum

namespace Datum

mutual

def renumber (f : Nat → Nat) : Datum → Datum
  | plain v => plain v
  | list items => list (renumberAll f items)
  | tuple items => tuple (renumberAll f items)
  | object id => object (f id)

def renumberAll (f : Nat → Nat) : List Datum → List Datum
  | [] => []
  | d :: rest => renumber f d :: renumberAll f rest

end

mutual

def value? (mapping? : Nat → Option Value) : Datum → Option Value
  | plain v => some v
  | list items => (values? mapping? items).map .list
  | tuple items => (values? mapping? items).map .tuple
  | object id => mapping? id

def values? (mapping? : Nat → Option Value) : List Datum → Option (List Value)
  | [] => some []
  | d :: rest => do
    let v ← value? mapping? d
    let others ← values? mapping? rest
    return v :: others

end

end Datum

namespace Heap

def renumber (f : Nat → Nat) (h : Heap) : Heap :=
  h.map fun entries => entries.map fun e => (e.1, e.2.renumber f)

def entriesOf (id : Nat) (h : Heap) : Table Value Datum := (h[id]?).getD []

/-- Sets the value of a key of a mapping, wherever the mapping stands. -/
def set (id : Nat) (key : Value) (d : Datum) (h : Heap) : Heap := h.modify id (Table.put key d)

def mapping? (h : Heap) : Nat → Nat → Option Value
  | 0, _ => none
  | depth + 1, id => do
    let entries ← h[id]?
    let vs ← Datum.values? (mapping? h depth) (entries.map (·.2))
    return .map (entries.keys.zip vs)

/-- The value of a datum. One that stands in itself has none. -/
def read (h : Heap) (d : Datum) : Except Refusal Value :=
  match d.value? (h.mapping? h.length) with
  | some v => .ok v
  | none => .error (.raised .badValue "Circular reference detected")

mutual

def allocate : Value → Heap → Heap × Datum
  | .list items, h =>
    let (h, ds) := allocateAll items h
    (h, .list ds)
  | .tuple items, h =>
    let (h, ds) := allocateAll items h
    (h, .tuple ds)
  | .map entries, h =>
    let (h, inner) := allocateEntries entries h
    (h ++ [inner], .object h.length)
  | v, h => (h, .plain v)

def allocateAll : List Value → Heap → Heap × List Datum
  | [], h => (h, [])
  | v :: rest, h =>
    let (h, d) := allocate v h
    let (h, ds) := allocateAll rest h
    (h, d :: ds)

def allocateEntries : List (Value × Value) → Heap → Heap × Table Value Datum
  | [], h => (h, [])
  | (key, v) :: rest, h =>
    let (h, d) := allocate v h
    let (h, entries) := allocateEntries rest h
    (h, (key, d) :: entries)

end

/-- Takes the mappings of a graph in, under new numbers. -/
def adopt (g : Graph) (h : Heap) : Heap × Datum :=
  (h ++ g.heap.renumber (h.length + ·), g.root.renumber (h.length + ·))

def find? (h : Heap) : List Text → Datum → Option Datum
  | [], d => some d
  | part :: rest, .object id => (Table.get? (.text part) (h.entriesOf id)).bind (find? h rest)
  | _ :: _, _ => none

/-- The value at a path of a mapping; the parts of the path are separated by dots. -/
def get? (path : Text) (root : Nat) (h : Heap) : Except Refusal (Option Value) :=
  match h.find? (Text.split '.' path) (.object root) with
  | some d => (h.read d).map some
  | none => .ok none

end Heap

namespace Graph

/-- The graph of a value, in which every mapping stands in one place. -/
def ofValue (v : Value) : Graph :=
  let (heap, root) := Heap.allocate v []
  ⟨heap, root⟩

def ofNumbered (objects : Table Nat (Table Value Datum)) (root : Datum) : Graph :=
  let place (number : Nat) : Nat := objects.keys.idxOf number
  ⟨Heap.renumber place (objects.map (·.2)), root.renumber place⟩

def read (g : Graph) : Except Refusal Value := g.heap.read g.root

def isMapping (g : Graph) : Bool :=
  match g.root with
  | .object _ => true
  | _ => false

def isTruthy (g : Graph) : Bool :=
  match g.root with
  | .plain v => v.isTruthy
  | .list items => !items.isEmpty
  | .tuple items => !items.isEmpty
  | .object id => !(g.heap.entriesOf id).isEmpty

end Graph

end RoutePattern
