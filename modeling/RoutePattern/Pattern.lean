import RoutePattern.Text

/-!
Route patterns as trees: how they are put together, and what can be read off their shape.
A pattern may carry schemas of any kind `σ`; nothing here looks into them.
-/

namespace RoutePattern

inductive Modifier where
  | optional
  | zeroOrMore
  | oneOrMore
deriving DecidableEq, Repr

namespace Modifier

def symbol : Modifier → Char
  | optional => '?'
  | zeroOrMore => '*'
  | oneOrMore => '+'

def ofSymbol? : Char → Option Modifier
  | '?' => some optional
  | '*' => some zeroOrMore
  | '+' => some oneOrMore
  | _ => none

def allowsNone : Modifier → Bool
  | oneOrMore => false
  | _ => true

def allowsMany : Modifier → Bool
  | optional => false
  | _ => true

end Modifier

/-- A pattern for paths and queries. `concat` joins its sides within one segment when `joined`, and
puts a segment boundary between them otherwise. -/
inductive Pattern (σ : Type) where
  | literal (text : Text)
  | param (name : Text)
  | unnamed
  | modified (modifier : Modifier) (inner : Pattern σ)
  | prefixed (lead : Text) (inner : Pattern σ)
  | concat (left right : Pattern σ) (joined : Bool)
  | queryParam (key : Text) (value : Pattern σ)
  | queryParams (previous : Pattern σ) (entries : List (Text × Pattern σ))
  | withSchema (inner : Pattern σ) (schema : σ)

namespace Pattern

variable {σ : Type}

def root : Pattern σ := literal ['/']

def modifiedBy (modifier : Option Modifier) (p : Pattern σ) : Pattern σ :=
  match modifier with
  | some m => modified m p
  | none => p

/-- Literals that stand for no segment: the separator and the empty text. -/
def isEmptyLiteral : Pattern σ → Bool
  | literal text => text.all (· == '/')
  | _ => false

/-- Concatenation of two path parts that drops a side without segments. -/
def merge (left right : Pattern σ) : Pattern σ :=
  if right.isEmptyLiteral then left
  else if left.isEmptyLiteral then right
  else concat left right false

/-- The entries of both blocks; a key that both declare keeps its right-hand place and value. -/
def mergeEntries (left right : List (Text × Pattern σ)) : List (Text × Pattern σ) :=
  left.filter (fun entry => !(right.map (·.1)).contains entry.1) ++ right

/-- One pattern after the other, with at most one query block, which stays outermost. -/
def append : Pattern σ → Pattern σ → Pattern σ
  | queryParams p es, queryParams q fs => queryParams (merge p q) (mergeEntries es fs)
  | queryParams p es, q => queryParams (merge p q) es
  | p, queryParams q fs => queryParams (merge p q) fs
  | p, q => concat p q false

def appendAll (first : Pattern σ) (others : List (Pattern σ)) : Pattern σ :=
  others.foldl append first

def queryBlock? : Pattern σ → Option (List (Text × Pattern σ))
  | queryParams _ entries => some entries
  | concat _ right _ => right.queryBlock?
  | withSchema inner _ => inner.queryBlock?
  | _ => none

mutual

/-- Whether a pattern may match without any input. -/
def isOptional : Pattern σ → Bool
  | modified m _ => m.allowsNone
  | concat left right _ => left.isOptional && right.isOptional
  | withSchema inner _ => inner.isOptional
  | prefixed _ inner => inner.isOptional
  | queryParams previous entries => previous.isOptional && entriesOptional entries
  | _ => false

def entriesOptional : List (Text × Pattern σ) → Bool
  | [] => true
  | (_, value) :: rest => value.isOptional && entriesOptional rest

end

def optionalEntries (p : Pattern σ) : List (Text × Pattern σ) :=
  (p.queryBlock?.getD []).filter fun entry => entry.2.isOptional

def isRepetition : Pattern σ → Bool
  | modified m inner => m.allowsMany || inner.isRepetition
  | prefixed _ inner => inner.isRepetition
  | withSchema inner _ => inner.isRepetition
  | _ => false

/-- A pattern without the modifiers and schemas around it, and whether these allow none and many. -/
def unwrap : Pattern σ → Pattern σ × Bool × Bool
  | modified m inner =>
    let (core, optional, multiple) := inner.unwrap
    (core, optional || m.allowsNone, multiple || m.allowsMany)
  | withSchema inner _ => inner.unwrap
  | p => (p, false, false)

def segmentNodes : Pattern σ → List (Pattern σ)
  | concat left right _ => left.segmentNodes ++ right.segmentNodes
  | withSchema inner _ => inner.segmentNodes
  | p => [p]

mutual

/-- Whether two patterns are built alike. A schema equals no other, so neither do patterns that
carry one. -/
def same : Pattern σ → Pattern σ → Bool
  | literal s, literal t => s == t
  | param s, param t => s == t
  | unnamed, unnamed => true
  | modified m p, modified n q => m == n && p.same q
  | prefixed s p, prefixed t q => s == t && p.same q
  | concat p q b, concat p' q' b' => p.same p' && q.same q' && b == b'
  | queryParam s p, queryParam t q => s == t && p.same q
  | queryParams p es, queryParams q fs => p.same q && sameEntries es fs
  | _, _ => false

def sameEntries : List (Text × Pattern σ) → List (Text × Pattern σ) → Bool
  | [], [] => true
  | (s, p) :: es, (t, q) :: fs => s == t && p.same q && sameEntries es fs
  | _, _ => false

end

mutual

/-- The pattern with every schema taken out, at any depth. -/
def erase {τ : Type} : Pattern σ → Pattern τ
  | literal text => literal text
  | param name => param name
  | unnamed => unnamed
  | modified m inner => modified m inner.erase
  | prefixed lead inner => prefixed lead inner.erase
  | concat left right joined => concat left.erase right.erase joined
  | queryParam key value => queryParam key value.erase
  | queryParams previous entries => queryParams previous.erase (eraseEntries entries)
  | withSchema inner _ => inner.erase

def eraseEntries {τ : Type} : List (Text × Pattern σ) → List (Text × Pattern τ)
  | [] => []
  | (key, value) :: rest => (key, value.erase) :: eraseEntries rest

end

mutual

/-- The first query entry that stands outside a query block, in the order in which a pattern is
written down. Such a pattern has no written form. -/
def strayParam? : Pattern σ → Option (Pattern σ)
  | modified _ inner => inner.strayParam?
  | prefixed _ inner => inner.strayParam?
  | concat left right _ => left.strayParam?.or right.strayParam?
  | queryParam key value => some (queryParam key value)
  | queryParams previous entries => (strayInEntries entries).or previous.strayParam?
  | withSchema inner _ => inner.strayParam?
  | _ => none

def strayInEntries : List (Text × Pattern σ) → Option (Pattern σ)
  | [] => none
  | (_, value) :: rest => value.strayParam?.or (strayInEntries rest)

end

end Pattern

end RoutePattern
