import RoutePattern.Pattern

/-!
The written form of a pattern. Segments are joined by single slashes, and a question mark that would
read as a modifier is escaped.
-/

namespace RoutePattern

/-- Parts of a path joined by single slashes; empty when no part has a segment. -/
def joinPath (parts : List Text) : Text :=
  ((parts.map (Text.trim '/')).filter (!·.isEmpty)).flatMap ('/' :: ·)

def orRoot (path : Text) : Text := if path.isEmpty then ['/'] else path

def isNameStart (c : Char) : Bool := c.isAlpha || c == '_'

def isNameChar (c : Char) : Bool := c.isAlphanum || c == '_'

/-- An ASCII letter or underscore, then letters, digits and underscores. -/
def isName : Text → Bool
  | [] => false
  | c :: rest => isNameStart c && rest.all isNameChar

/-- Whether a segment is a capture that still lacks a modifier. -/
def isBareCapture : Text → Bool
  | ':' :: name => isName name
  | text => text == ['*']

/-- Whether a question mark after `segment` and before `following` is a modifier. It is one only
where it closes a bare capture; everywhere else it opens the query. -/
def readsAsModifier (segment following : Text) : Bool :=
  isBareCapture segment &&
    match following with
    | [] => true
    | c :: _ => c == '/' || c == '{' || c == '?'

/-- A modifier goes inside the braces of a prefixed capture. -/
def withSymbol (symbol : Char) (path : Text) : Text :=
  if path.getLast? = some '}' then path.dropLast ++ [symbol, '}'] else path ++ [symbol]

def lastSegment (path : Text) : Text := (path.reverse.takeWhile (· != '/')).reverse

def querySeparator (path query : Text) : Text :=
  if readsAsModifier (lastSegment path) query then ['\\', '?'] else ['?']

namespace Pattern

variable {σ : Type}

mutual

def body : Pattern σ → Text
  | literal text => text
  | param name => ':' :: name
  | unnamed => ['*']
  | modified m inner => withSymbol m.symbol inner.body
  | prefixed lead inner =>
    let capture := inner.body
    '{' :: lead ++ (if capture.head? = some ':' then capture else ':' :: capture) ++ ['}']
  | concat left right joined =>
    if joined then left.body ++ right.body else joinPath [left.body, right.body]
  | queryParam key value => key ++ '=' :: value.body
  | queryParams previous entries =>
    let path := orRoot (joinPath [previous.body])
    let query := Text.join ['&'] (entryBodies entries)
    path ++ querySeparator path query ++ query
  | withSchema inner _ => inner.body

def entryBodies : List (Text × Pattern σ) → List Text
  | [] => []
  | (key, value) :: rest => (key ++ '=' :: value.body) :: entryBodies rest

end

def path (p : Pattern σ) : Text :=
  if p.queryBlock?.isSome then p.body else orRoot (joinPath [p.body])

end Pattern

end RoutePattern
