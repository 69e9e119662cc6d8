import RoutePattern.Pattern.Path

/-!
Captures and the layout of a pattern: a list of steps, each of which takes up to one segment, the
query, or the segments of a nested pattern. Matching and rendering both follow the layout.
An unnamed capture has the number of unnamed captures to its left as its key.
-/

namespace RoutePattern

/-- What a capture is called: its name, or its position among the unnamed ones. -/
inductive Key where
  | name (text : Text)
  | index (n : Nat)
deriving DecidableEq, Repr

namespace Key

def text : Key → Text
  | name t => t
  | index n => Text.ofNat n

/-- The key with its position moved up, where it has one. -/
def shift (count : Nat) : Key → Key
  | name t => name t
  | index n => index (n + count)

end Key

structure Capture where
  key : Key
  lead : Text
  optional : Bool
  multiple : Bool
deriving DecidableEq, Repr

inductive Part where
  | literal (text : Text) (optional : Bool)
  | capture (capture : Capture)
deriving DecidableEq, Repr

namespace Part

def isOptional : Part → Bool
  | literal _ optional => optional
  | capture c => c.optional

def isMultiple : Part → Bool
  | literal _ _ => false
  | capture c => c.multiple

def leading : Part → Text
  | literal text _ => text
  | capture c => c.lead

/-- Widens what the part may stand for; a literal is never repeated. -/
def loosen (optional multiple : Bool) : Part → Part
  | literal text o => literal text (o || optional)
  | capture c =>
    capture ⟨c.key, c.lead, c.optional || optional, c.multiple || multiple⟩

def withLead (lead : Text) : Part → Part
  | literal text o => literal (lead ++ text) o
  | capture c => capture ⟨c.key, lead ++ c.lead, c.optional, c.multiple⟩

end Part

/-- What a pattern does with the segments, from left to right. -/
inductive Step where
  | single (part : Part)
  | compound (parts : List Part)
  | nested (optional : Bool) (steps : List Step)
  | query (entries : List (Text × List Part))

inductive LayoutFault where
  | repeatedSegments (path : Text)
  | unsupportedLead
  | unsupportedEntry
  | compositeInSegment
  | compositeInQuery (key : Text)
deriving DecidableEq, Repr

namespace LayoutFault

def message : LayoutFault → Text
  | repeatedSegments path =>
    "Repetition of a multi-segment pattern '" ++ path ++ "' is not supported"
  | unsupportedLead => "Unsupported pattern node inside a group: prefix"
  | unsupportedEntry => "Unsupported pattern node inside a group: query_param"
  | compositeInSegment =>
    "Compound segments may only contain literals, prefixes and captures"
  | compositeInQuery key =>
    "Query value for '" ++ key ++ "' must be a single segment pattern"

/-- What the author of the pattern may have meant; said where a pattern is made ready to match. -/
def suggestions : LayoutFault → List Text
  | repeatedSegments _ => ["Repeat a single capture instead, e.g. /files/:path+"]
  | _ => []

end LayoutFault

/-- Why a pattern has no layout. A fault that quotes a pattern without a written form is told by the
entry that keeps that pattern from being written. -/
inductive LayoutError (σ : Type) where
  | fault (fault : LayoutFault)
  | unwritable (stray : Pattern σ)

namespace LayoutError

variable {σ : Type}

def repeated (core : Pattern σ) : LayoutError σ :=
  match core.strayParam? with
  | some stray => unwritable stray
  | none => fault (.repeatedSegments core.path)

end LayoutError

/-- A repetition with segments behind it that it leaves nothing for, in the pattern `whole`. -/
structure RepetitionWarning (σ : Type) where
  repetition : Pattern σ
  whole : Pattern σ

/-- The outcome of laying out a pattern: warnings up to the first fault, and the steps. -/
structure Layout (σ : Type) where
  warnings : List (RepetitionWarning σ)
  steps : Except (LayoutError σ) (List Step)

namespace Layout

variable {σ : Type}

/-- One layout after another; a fault in the first hides all of the second. -/
def append (first second : Layout σ) : Layout σ :=
  match first.steps with
  | .error e => ⟨first.warnings, .error e⟩
  | .ok steps => ⟨first.warnings ++ second.warnings, second.steps.map (steps ++ ·)⟩

/-- The warnings that can be told: those before the first about a pattern without a written form. -/
def toldWarnings (l : Layout σ) : List (RepetitionWarning σ) :=
  l.warnings.takeWhile fun w => w.whole.strayParam?.isNone

def toldSteps (l : Layout σ) : Except (LayoutError σ) (List Step) :=
  match l.warnings.findSome? fun w => w.whole.strayParam? with
  | some stray => .error (.unwritable stray)
  | none => l.steps

end Layout

/-- A member of a segment: a part, or the pattern `core` of several segments under modifiers. -/
inductive Member (σ : Type) where
  | part (hasLead : Bool) (part : Part)
  | composite (optional multiple : Bool) (core : Pattern σ) (layout : Layout σ)

namespace Member

variable {σ : Type}

def part? : Member σ → Option Part
  | part _ p => some p
  | composite .. => none

def modified (m : Modifier) : Member σ → Member σ
  | part hasLead p => part hasLead (p.loosen m.allowsNone m.allowsMany)
  | composite optional multiple core layout =>
    composite (optional || m.allowsNone) (multiple || m.allowsMany) core layout

def refused (core : Pattern σ) (fault : LayoutFault) : Member σ :=
  composite false false core ⟨[], .error (.fault fault)⟩

/-- A member behind a lead. Only a part without a lead of its own can take one; `whole` is the
pattern with its lead. -/
def prefixed (lead : Text) (whole : Pattern σ) : Member σ → Member σ
  | part false p => part true (p.withLead lead)
  | _ => refused whole .unsupportedLead

end Member

/-- A stop on the way through a pattern: a member, joined to the one before it or not; a gap between
segments; or a query block. -/
inductive Stop (σ : Type) where
  | member (joined : Bool) (node : Pattern σ) (member : Member σ)
  | gap (text : Text)
  | query (node : Pattern σ) (entries : List (Text × Option (List Part)))

/-- A run of members that share one segment, or a query block. -/
inductive Group (σ : Type) where
  | segment (members : List (Pattern σ × Member σ))
  | query (node : Pattern σ) (entries : List (Text × Option (List Part)))

namespace Stop

variable {σ : Type}

/-- What a stop stands for inside a query value, where slashes are ordinary text. -/
def part? : Stop σ → Option Part
  | member _ _ m => m.part?
  | gap text => some (.literal text false)
  | query .. => none

end Stop

namespace Group

variable {σ : Type}

def close (members : List (Pattern σ × Member σ)) : List (Group σ) :=
  if members.isEmpty then [] else [segment members]

/-- Groups of the stops of a pattern; `current` are the members of the segment under way. -/
def gather (current : List (Pattern σ × Member σ)) : List (Stop σ) → List (Group σ)
  | [] => close current
  | .gap _ :: rest => close current ++ gather [] rest
  | .query node entries :: rest => close current ++ query node entries :: gather [] rest
  | .member joined node m :: rest =>
    if joined then gather (current ++ [(node, m)]) rest
    else close current ++ gather [(node, m)] rest

def isSegment : Group σ → Bool
  | segment _ => true
  | query .. => false

def nodes : Group σ → List (Pattern σ)
  | segment members => members.map (·.1)
  | query node _ => [node]

/-- The layout of a segment with a single member. `last` says that no segment follows. -/
def layoutSingle (whole : Pattern σ) (last : Bool) (node : Pattern σ) : Member σ → Layout σ
  | .part _ p =>
    ⟨if p.isMultiple && !last then [⟨node, whole⟩] else [], .ok [.single p]⟩
  | .composite optional multiple core layout =>
    if multiple then ⟨[], .error (.repeated core)⟩
    else ⟨layout.warnings, layout.steps.map fun steps => [.nested optional steps]⟩

/-- The parts of every query value; a value of several segments is a fault. -/
def layoutEntries :
    List (Text × Option (List Part)) → Except (LayoutError σ) (List (Text × List Part))
  | [] => .ok []
  | (key, none) :: _ => .error (.fault (.compositeInQuery key))
  | (key, some parts) :: rest => (layoutEntries rest).map ((key, parts) :: ·)

def layout (whole : Pattern σ) (last : Bool) : Group σ → Layout σ
  | segment [(node, member)] => layoutSingle whole last node member
  | segment members =>
    match members.mapM fun m => m.2.part? with
    | some parts => ⟨[], .ok [.compound parts]⟩
    | none => ⟨[], .error (.fault .compositeInSegment)⟩
  | query _ entries => ⟨[], (layoutEntries entries).map fun es => [.query es]⟩

def layoutAll (whole : Pattern σ) : List (Group σ) → Layout σ
  | [] => ⟨[], .ok []⟩
  | g :: rest => (g.layout whole (!rest.any isSegment)).append (layoutAll whole rest)

end Group

namespace Pattern

variable {σ : Type}

mutual

/-- How many unnamed captures a pattern has. Entries outside of query blocks are not counted. -/
def unnamedCount : Pattern σ → Nat
  | unnamed => 1
  | modified _ inner => inner.unnamedCount
  | prefixed _ inner => inner.unnamedCount
  | concat left right _ => left.unnamedCount + right.unnamedCount
  | queryParams previous entries => previous.unnamedCount + unnamedInEntries entries
  | withSchema inner _ => inner.unnamedCount
  | _ => 0

def unnamedInEntries : List (Text × Pattern σ) → Nat
  | [] => 0
  | (_, value) :: rest => value.unnamedCount + unnamedInEntries rest

end

mutual

/-- The stops of a pattern. `first` is the key of its first unnamed capture, and `joined` says
whether it shares the segment of what stands before it. -/
def stops (first : Nat) (joined : Bool) : Pattern σ → List (Stop σ)
  | literal text =>
    if text.all (· == '/') then [.gap text]
    else [.member joined (literal text) (.part false (.literal text false))]
  | param name => [.member joined (param name) (.part false (.capture ⟨.name name, [], false, false⟩))]
  | unnamed => [.member joined unnamed (.part false (.capture ⟨.index first, [], false, false⟩))]
  | modified m inner => [.member joined (modified m inner) ((inner.member first).modified m)]
  | prefixed lead inner =>
    [.member joined (prefixed lead inner)
      ((inner.member first).prefixed lead (prefixed lead inner))]
  | concat left right glued =>
    left.stops first joined ++ right.stops (first + left.unnamedCount) glued
  | queryParam key value =>
    [.member joined (queryParam key value) (.refused (queryParam key value) .unsupportedEntry)]
  | queryParams previous entries =>
    previous.stops first false ++
      [.query (queryParams previous entries) (entryParts (first + previous.unnamedCount) entries)]
  | withSchema inner _ => inner.stops first joined

/-- The parts of every query value, none for a value of several segments. -/
def entryParts (first : Nat) : List (Text × Pattern σ) → List (Text × Option (List Part))
  | [] => []
  | (key, value) :: rest =>
    (key, (value.stops first false).mapM Stop.part?) ::
      entryParts (first + value.unnamedCount) rest

def member (first : Nat) : Pattern σ → Member σ
  | literal text => .part false (.literal text false)
  | param name => .part false (.capture ⟨.name name, [], false, false⟩)
  | unnamed => .part false (.capture ⟨.index first, [], false, false⟩)
  | modified m inner => (inner.member first).modified m
  | prefixed lead inner => (inner.member first).prefixed lead (prefixed lead inner)
  | concat left right glued =>
    let whole := concat left right glued
    .composite false false whole (Group.layoutAll whole (Group.gather []
      (left.stops first false ++ right.stops (first + left.unnamedCount) glued)))
  | queryParam key value => .refused (queryParam key value) .unsupportedEntry
  | queryParams previous entries =>
    let whole := queryParams previous entries
    .composite false false whole (Group.layoutAll whole (Group.gather []
      (previous.stops first false ++
        [.query (queryParams previous entries)
          (entryParts (first + previous.unnamedCount) entries)])))
  | withSchema inner _ => inner.member first

end

/-- The groups of a pattern, each for one segment; a query block is a group of its own. -/
def groups (p : Pattern σ) : List (Group σ) := Group.gather [] (p.stops 0 false)

def layout (p : Pattern σ) : Layout σ := Group.layoutAll p p.groups

/-- The captures of a pattern in key order, each with whether it stands in the query. `optional`
says whether the pattern as a whole may be left out. -/
def captures (first : Nat) (optional : Bool) : Pattern σ → List (Capture × Bool)
  | concat left right _ =>
    left.captures first optional ++ right.captures (first + left.unnamedCount) optional
  | queryParams previous entries =>
    previous.captures first optional ++
      entryCaptures (first + previous.unnamedCount) optional entries
  | modified m inner =>
    match ((modified m inner).member first).part? with
    | some part => partCaptures optional part
    | none => inner.captures first (optional || m.allowsNone)
  | prefixed lead inner =>
    match ((prefixed lead inner).member first).part? with
    | some part => partCaptures optional part
    | none => inner.captures first optional
  | withSchema inner _ => inner.captures first optional
  | p =>
    match (p.member first).part? with
    | some part => partCaptures optional part
    | none => []
where
  entryCaptures (first : Nat) (optional : Bool) : List (Text × Pattern σ) → List (Capture × Bool)
    | [] => []
    | (_, value) :: rest =>
      (value.captures first optional).map (fun c => (c.1, true)) ++
        entryCaptures (first + value.unnamedCount) optional rest
  partCaptures (optional : Bool) : Part → List (Capture × Bool)
    | .literal .. => []
    | .capture c => [(⟨c.key, c.lead, c.optional || optional, c.multiple⟩, false)]

end Pattern

end RoutePattern
