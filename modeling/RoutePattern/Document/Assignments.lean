import RoutePattern.Table
import RoutePattern.Text.Blank

/-!
Documents of assignments: one name with its value on a line, as environments are kept in files.
-/

namespace RoutePattern
namespace Document
namespace Assignments

def isInnerBlank (c : Char) : Bool := Text.isBlank c && c != '\n' && c != '\r'

def isLineEnd (c : Char) : Bool := c == '\n' || c == '\r'

def withoutExport (text : Text) : Text :=
  match Text.after? "export" text with
  | some rest =>
    if rest.head?.any isInnerBlank then rest.dropWhile isInnerBlank else text
  | none => text

def isNameChar (c : Char) : Bool := c != '=' && c != '#' && !Text.isBlank c

/-- A name, and what follows it. A comment has no name. -/
def name? (text : Text) : Option (Option Text × Text) :=
  match text with
  | '#' :: _ => some (none, text)
  | '\'' :: rest =>
    match Text.cut '\'' rest with
    | some (name, after) => if name.isEmpty then none else some (some name, after)
    | none => none
  | _ =>
    let name := text.takeWhile isNameChar
    if name.isEmpty then none else some (some name, text.dropWhile isNameChar)

/-- The text up to a closing quote, and what follows it. A quote behind a backslash closes only if
no other does. -/
def upTo (quote : Char) : Text → Option (Text × Text)
  | [] => none
  | [c] => if c = quote then some ([], []) else none
  | c :: d :: rest =>
    if c = quote then some ([], d :: rest)
    else if c = '\\' && d = quote then
      match upTo quote rest with
      | some (body, after) => some (c :: d :: body, after)
      | none => some ([c], rest)
    else (upTo quote (d :: rest)).map fun (body, after) => (c :: body, after)

def escapes : List (Char × Char) :=
  [('\\', '\\'), ('\'', '\''), ('"', '"'), ('a', '\x07'), ('b', '\x08'), ('f', '\x0c'),
    ('n', '\n'), ('r', '\r'), ('t', '\t'), ('v', '\x0b')]

/-- The text with the given escapes resolved; other backslashes stand for themselves. -/
def unescape (known : List (Char × Char)) : Text → Text
  | [] => []
  | [c] => [c]
  | c :: d :: rest =>
    match if c = '\\' then Table.get? d known else none with
    | some e => e :: unescape known rest
    | none => c :: unescape known (d :: rest)

/-- A value without quotes ends where a comment starts behind white space. -/
def withoutComment : Text → Text
  | [] => []
  | c :: rest =>
    if Text.isBlank c && (rest.dropWhile Text.isBlank).head? = some '#' then []
    else c :: withoutComment rest

def value? (text : Text) : Option (Text × Text) :=
  match text with
  | '\'' :: rest =>
    (upTo '\'' rest).map fun (body, after) =>
      (unescape [('\\', '\\'), ('\'', '\'')] body, after)
  | '"' :: rest => (upTo '"' rest).map fun (body, after) => (unescape escapes body, after)
  | _ =>
    let part := text.takeWhile (!isLineEnd ·)
    some ((withoutComment part).reverse.dropWhile Text.isBlank |>.reverse,
      text.dropWhile (!isLineEnd ·))

/-- What follows the comment and the end of a line, if nothing else stands there. -/
def lineEnd? (text : Text) : Option Text :=
  let text := text.dropWhile isInnerBlank
  let text := if text.head? = some '#' then text.dropWhile (!isLineEnd ·) else text
  match text with
  | [] => some []
  | c :: rest => if isLineEnd c then some rest else none

/-- What was found on a line, and what follows the line. Nothing was found if something else stands
at its end. -/
def closeLine {α : Type} (found : Option α) (text : Text) : Option α × Text :=
  match lineEnd? text with
  | some rest => (found, rest)
  | none => (none, text.dropWhile (!isLineEnd ·))

/-- A name with its value, none where it is not assigned; and what follows the line. -/
def line? (text : Text) : Option (Option (Text × Option Text) × Text) := do
  let (name, rest) ← name? (withoutExport text)
  match rest.dropWhile isInnerBlank with
  | '=' :: rest =>
    match value? (rest.dropWhile isInnerBlank) with
    | some (v, rest) => return closeLine (name.map (·, some v)) rest
    | none => return (none, rest.dropWhile (!isLineEnd ·))
  | rest => return closeLine (name.map (·, none)) rest

/-- The assignments of a text; a line that is none is skipped. -/
def entries : Nat → Text → List (Text × Option Text)
  | 0, _ => []
  | fuel + 1, text =>
    match text.dropWhile Text.isBlank with
    | [] => []
    | text =>
      match line? text with
      | some (found, rest) => found.toList ++ entries fuel rest
      | none => entries fuel (text.dropWhile (!isLineEnd ·))

/-- What is named behind a dollar sign and an opening brace: the name, what stands for it where it is
not known, and what follows. -/
def named? (text : Text) : Option (Text × Text × Text) :=
  let name := text.takeWhile fun c => c != '}' && c != ':'
  match text.drop name.length with
  | '}' :: rest => some (name, [], rest)
  | ':' :: '-' :: more => (Text.cut '}' more).map fun (usual, rest) => (name, usual, rest)
  | _ => none

/-- The text with the values of the names in it. A name that has none leaves nothing. -/
def filled (known : Text → Option Text) : Nat → Text → Text
  | 0, text => text
  | _, [] => []
  | fuel + 1, c :: rest =>
    match if c = '$' && rest.head? = some '{' then named? rest.tail else none with
    | some (name, usual, after) =>
      (known name).getD usual ++ filled known fuel after
    | none => c :: filled known fuel rest

/-- What is known under a name: what was assigned to it, or else its value in an environment. A name
that stands without a value is known as nothing. -/
def known (environment : Table Text Text) (assigned : Table Text (Option Text)) (name : Text) :
    Option Text :=
  match Table.get? name assigned with
  | some v => some (v.getD [])
  | none => Table.get? name environment

/-- Assigns values one after the other. Each may name those before it and those of an environment. -/
def assignAll (environment : Table Text Text) (entries : List (Text × Option Text)) :
    Table Text (Option Text) :=
  entries.foldl
    (fun assigned (name, v) =>
      Table.put name (v.map fun v => filled (known environment assigned) v.length v) assigned)
    []

/-- Reads a document. A name that is assigned again keeps its place. -/
def read (environment : Table Text Text) (source : Text) : Table Text (Option Text) :=
  assignAll environment (entries (source.length + 1) source)

end Assignments
end Document
end RoutePattern
