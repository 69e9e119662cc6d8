import RoutePattern.Pattern.Path

/-!
Reading patterns. A pattern is a path, then possibly a question mark and a query:

    path      := segment / segment / ...
    segment   := pieces side by side: {lead:capture}, capture or literal
    capture   := :name or *, with a modifier ? * + or none
    query     := key=segment & key=segment & ...

A question mark that closes a bare capture segment is a modifier. Any other one opens the query, and
an escaped one always does.
-/

namespace RoutePattern

inductive SyntaxCause where
  | strayBrace (brace : Char)
  | invalidCapture (name : Text)
  | invalidWildcard (text : Text)
  | emptyBraces
  | bracesWithoutCapture (body : Text)
  | emptyBracedCapture
  | invalidBracedCapture (name : Text)
  | entryWithoutValue (entry : Text)
  | emptyQueryKey
  | duplicateQueryKey (key : Text)
deriving DecidableEq, Repr

/-- A cause with the part of the source at fault: the characters from `start` up to `stop`. -/
structure SyntaxFault where
  cause : SyntaxCause
  start : Nat
  stop : Nat
deriving DecidableEq, Repr

namespace SyntaxCause

def message : SyntaxCause → Text
  | strayBrace brace => "Unbalanced brace '" ++ [brace] ++ "'"
  | invalidCapture name => "Invalid capture name '" ++ name ++ "'"
  | invalidWildcard text => "Invalid wildcard '" ++ text ++ "'"
  | emptyBraces => "Empty brace group"
  | bracesWithoutCapture body => "Brace group '\x7b" ++ body ++ "\x7d' has no capture"
  | emptyBracedCapture => "Empty capture in brace group"
  | invalidBracedCapture name => "Invalid capture name '" ++ name ++ "'"
  | entryWithoutValue entry => "Query entry '" ++ entry ++ "' has no value pattern"
  | emptyQueryKey => "Empty query key"
  | duplicateQueryKey key => "Duplicate query key '" ++ key ++ "'"

def suggestions : SyntaxCause → List Text
  | strayBrace _ => ["Prefix groups look like \x7bprefix:name\x7d"]
  | invalidCapture _ => ["Capture names must match [A-Za-z_][A-Za-z0-9_]*"]
  | invalidWildcard _ => ["Wildcards are *, *?, ** or *+"]
  | bracesWithoutCapture body => ["Did you mean \x7b" ++ body ++ ":name\x7d?"]
  | entryWithoutValue entry => [entry ++ "=:" ++ entry]
  | _ => []

end SyntaxCause

/-- A source cut into its path and its query, with the index at which the query starts. -/
structure QuerySplit where
  path : Text
  query : Option Text
  offset : Nat
deriving DecidableEq, Repr

namespace QuerySplit

/-- The index of the question mark that opens the query. `depth` counts open braces and `segment`
holds the segment so far, last character first. -/
def separator? (depth : Nat) (segment : Text) : Text → Option Nat
  | [] => none
  | c :: rest =>
    if c = '?' ∧ depth = 0 ∧ readsAsModifier segment.reverse rest = false then some 0
    else
      let depth' := if c = '{' then depth + 1 else if c = '}' then depth - 1 else depth
      let segment' := if c = '/' ∧ depth = 0 then [] else c :: segment
      (separator? depth' segment' rest).map (· + 1)

def ofSource (source : Text) : QuerySplit :=
  match Text.indexOf ['\\', '?'] source with
  | some i => ⟨source.take i, some (source.drop (i + 2)), i + 2⟩
  | none =>
    match separator? 0 [] source with
    | some i => ⟨source.take i, some (source.drop (i + 1)), i + 1⟩
    | none => ⟨source, none, source.length⟩

end QuerySplit

/-- A stretch of a segment: the body of a brace group, or text outside of such groups. -/
inductive Stretch where
  | braced (body : Text)
  | plain (text : Text)
deriving DecidableEq, Repr

namespace Stretch

def width : Stretch → Nat
  | braced body => body.length + 2
  | plain text => text.length

def plains (text : Text) : List Stretch := if text.isEmpty then [] else [plain text]

/-- Cuts a segment at its brace groups, which hold no brace themselves. `outside` is the text before
the last opening brace and `body` what follows it, both last character first. -/
def cut (outside : Text) (body : Option Text) : Text → List Stretch
  | [] =>
    match body with
    | some b => plains ((b ++ '{' :: outside).reverse)
    | none => plains outside.reverse
  | c :: rest =>
    match body with
    | some b =>
      if c = '{' then cut (b ++ '{' :: outside) (some []) rest
      else if c = '}' then plains outside.reverse ++ braced b.reverse :: cut [] none rest
      else cut outside (some (c :: b)) rest
    | none =>
      if c = '{' then cut outside (some []) rest else cut (c :: outside) none rest

def ofSegment (segment : Text) : List Stretch := cut [] none segment

end Stretch

namespace Pattern

variable {σ : Type}

def modifier? : Text → Option (Option Modifier)
  | [] => some none
  | [c] => (Modifier.ofSymbol? c).map some
  | _ => none

def nameAndModifier? (text : Text) : Option (Text × Option Modifier) :=
  let name := text.takeWhile isNameChar
  if isName name then (modifier? (text.dropWhile isNameChar)).map (name, ·) else none

def starModifier? : Text → Option (Option Modifier)
  | '*' :: rest => modifier? rest
  | _ => none

def ofPlain (text : Text) (offset : Nat) : Except SyntaxFault (Pattern σ) :=
  if text.contains '{' then
    let place := offset + text.idxOf '{'
    .error ⟨.strayBrace '{', place, place + 1⟩
  else if text.contains '}' then
    let place := offset + text.idxOf '}'
    .error ⟨.strayBrace '}', place, place + 1⟩
  else
    match text with
    | ':' :: rest =>
      match nameAndModifier? rest with
      | some (name, m) => .ok (modifiedBy m (param name))
      | none => .error ⟨.invalidCapture rest, offset, offset + text.length⟩
    | '*' :: rest =>
      match modifier? rest with
      | some m => .ok (modifiedBy m unnamed)
      | none => .error ⟨.invalidWildcard text, offset, offset + text.length⟩
    | _ => .ok (literal text)

/-- The body of a brace group: a lead, a colon and a capture. -/
def ofBraced (body : Text) (offset : Nat) : Except SyntaxFault (Pattern σ) :=
  let fault cause : Except SyntaxFault (Pattern σ) :=
    .error ⟨cause, offset, offset + body.length + 2⟩
  if body.isEmpty then fault .emptyBraces
  else
    match Text.cut ':' body with
    | none => fault (.bracesWithoutCapture body)
    | some (lead, capture) =>
      if capture.isEmpty then fault .emptyBracedCapture
      else
        match starModifier? capture with
        | some m => .ok (prefixed lead (modifiedBy m unnamed))
        | none =>
          match nameAndModifier? capture with
          | some (name, m) => .ok (prefixed lead (modifiedBy m (param name)))
          | none => fault (.invalidBracedCapture capture)

def ofStretch (offset : Nat) : Stretch → Except SyntaxFault (Pattern σ)
  | .braced body => ofBraced body offset
  | .plain text => ofPlain text offset

def ofStretches (offset : Nat) : List Stretch → Except SyntaxFault (List (Pattern σ))
  | [] => .ok []
  | s :: rest => do
    let first ← ofStretch offset s
    let others ← ofStretches (offset + s.width) rest
    return first :: others

def joinParts : List (Pattern σ) → Pattern σ
  | [] => literal []
  | first :: rest => rest.foldl (fun left right => concat left right true) first

def ofSegment (segment : Text) (offset : Nat) : Except SyntaxFault (Pattern σ) :=
  (ofStretches offset (Stretch.ofSegment segment)).map joinParts

def ofSegments : List (Nat × Text) → Except SyntaxFault (List (Pattern σ))
  | [] => .ok []
  | (offset, segment) :: rest => do
    let first ← ofSegment segment offset
    let others ← ofSegments rest
    return first :: others

/-- Segments of a path, put together from the left; the root where there is none. -/
def joinSegments : List (Pattern σ) → Pattern σ
  | [] => root
  | first :: rest => rest.foldl (fun left right => concat left right false) first

/-- The segments of a path with their places; empty ones are skipped. -/
def pathSegments (path : Text) : List (Nat × Text) :=
  (Text.located 0 (Text.split '/' path)).filter (!·.2.isEmpty)

def ofPath (path : Text) : Except SyntaxFault (Pattern σ) :=
  (ofSegments (pathSegments path)).map joinSegments

/-- The entries of a query; `seen` are the keys of earlier entries. -/
def ofEntries (seen : List Text) :
    List (Nat × Text) → Except SyntaxFault (List (Text × Pattern σ))
  | [] => .ok []
  | (start, entry) :: rest =>
    match Text.cut '=' entry with
    | none => .error ⟨.entryWithoutValue entry, start, start + entry.length⟩
    | some (key, value) =>
      if key.isEmpty then .error ⟨.emptyQueryKey, start, start + entry.length⟩
      else if seen.contains key then
        .error ⟨.duplicateQueryKey key, start, start + key.length⟩
      else do
        let first ← ofSegment value (start + key.length + 1)
        let others ← ofEntries (key :: seen) rest
        return (key, first) :: others

/-- The entries of a query with their places; empty ones are skipped. -/
def queryEntries (offset : Nat) (query : Text) : List (Nat × Text) :=
  (Text.located offset (Text.split '&' query)).filter (!·.2.isEmpty)

def ofText (source : Text) : Except SyntaxFault (Pattern σ) := do
  let split := QuerySplit.ofSource source
  let path ← ofPath split.path
  match split.query with
  | none => return path
  | some query => return queryParams path (← ofEntries [] (queryEntries split.offset query))

end Pattern

end RoutePattern
