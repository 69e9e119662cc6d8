import RoutePattern.Table
import RoutePattern.Text.Line

namespace RoutePattern

/-- The texts of files by path, and nothing for a directory. What stands before a slash in a path is
a directory, too. -/
abbrev Files := Table Text (Option Text)

namespace Files

/-- The names that a path goes through, without those that stay where they are. -/
def names (path : Text) : List Text :=
  (Text.split '/' path).filter fun name => !name.isEmpty && name != ['.']

/-- A path without empty names and without dots that stay where they are. Just two slashes at the
beginning are not the same as one. -/
def normal (path : Text) : Text :=
  let slashes := (path.takeWhile (· == '/')).length
  let start : Text := if slashes = 2 then "//" else if slashes = 0 then [] else ['/']
  let body := Text.join ['/'] (names path)
  if start.isEmpty && body.isEmpty then ['.'] else start ++ body

/-- The names on the way to the root, and to what a path starts at, which has none. -/
def origin (path : Text) : List Text := if path.head? = some '/' then [['/']] else []

def follow (way : List Text) (name : Text) : List Text :=
  if name == ['.'] then way
  else if name != "..".toList then way ++ [name]
  else if way == [['/']] then way
  else if way.isEmpty || way.getLast? == some "..".toList then way ++ [name]
  else way.dropLast

def way (path : Text) : List Text := origin path ++ names path

/-- What follows the last dot of the last name, with the dot. A dot at either end of the name does
not count. -/
def suffix (path : Text) : Text :=
  let name := ((names path).getLast?).getD []
  let tail := name.reverse.takeWhile (· != '.')
  if tail.isEmpty || name.length ≤ tail.length + 1 then [] else '.' :: tail.reverse

inductive OpenFault where
  | noSuchFile
  | isDirectory
  | notADirectory
deriving DecidableEq, Repr

namespace OpenFault

def message : OpenFault → Text
  | noSuchFile => "No such file or directory"
  | isDirectory => "Is a directory"
  | notADirectory => "Not a directory"

def number : OpenFault → Nat
  | noSuchFile => 2
  | isDirectory => 21
  | notADirectory => 20

end OpenFault

inductive Place where
  | directory (way : List Text)
  | file (text : Text)
deriving DecidableEq, Repr

namespace Place

def isDirectory : Place → Bool
  | directory _ => true
  | file _ => false

end Place

def isBelow (above : List Text) (file : Text) : Bool :=
  above.isPrefixOf (way file) && above.length < (way file).length

/-- Whether there is a directory at the end of a way. What lies above is always there. -/
def hasDirectory (w : List Text) (fs : Files) : Bool :=
  w.isEmpty || w == [['/']] || w.getLast? == some "..".toList ||
    fs.any fun entry => isBelow w entry.1 || (way entry.1 == w && entry.2.isNone)

def step (fs : Files) (name : Text) : Place → Except OpenFault Place
  | .file _ => .error .notADirectory
  | .directory above =>
    let w := follow above name
    if hasDirectory w fs then .ok (.directory w)
    else
      match fs.find? fun entry => way entry.1 == w with
      | some (_, some text) => .ok (.file text)
      | _ => .error .noSuchFile

/-- What a path leads to, name by name. One that ends in a slash does not lead to a file. -/
def place (path : Text) (fs : Files) : Except OpenFault Place :=
  let steps := (Text.split '/' path).filter fun name => !name.isEmpty
  if path.isEmpty then .error .noSuchFile
  else
    match steps.foldlM (fun place name => step fs name place) (Place.directory (origin path)) with
    | .ok (.file text) => if path.getLast? = some '/' then .error .notADirectory else .ok (.file text)
    | result => result

def isDirectory (path : Text) (fs : Files) : Bool :=
  match place path fs with
  | .ok found => found.isDirectory
  | .error _ => false

def isThere (path : Text) (fs : Files) : Bool := (place path fs).toOption.isSome

def read (path : Text) (fs : Files) : Except OpenFault Text :=
  match place path fs with
  | .ok (.file text) => .ok (Text.plainNewlines text)
  | .ok _ => .error .isDirectory
  | .error fault => .error fault

/-- Whether a path cannot even be asked for: it holds the character that ends paths. -/
def isUnreadable (path : Text) : Bool := path.contains '\x00'

def isMagic (c : Char) : Bool := c == '*' || c == '?' || c == '['

/-- Whether a character is in a set as it stands between brackets: single characters and ranges. -/
def inSet (c : Char) : Text → Bool
  | [] => false
  | [a] => a == c
  | [a, b] => a == c || b == c
  | a :: b :: d :: rest =>
    if b = '-' then (a ≤ c && c ≤ d) || inSet c rest else a == c || inSet c (b :: d :: rest)

/-- What stands between brackets, and what follows the closing one. A closing bracket that comes
first stands for itself. -/
def set? (text : Text) : Option (Bool × Text × Text) :=
  let (negated, body) :=
    match text with
    | '!' :: rest => (true, rest)
    | _ => (false, text)
  match body with
  | [] => none
  | first :: rest => (Text.cut ']' rest).map fun (inner, after) => (negated, first :: inner, after)

/-- Whether a name has the form of a pattern: a star is any text, a question mark any character,
and brackets hold a set of characters. -/
def fits : Nat → Text → Text → Bool
  | 0, _, _ => false
  | _, [], name => name.isEmpty
  | fuel + 1, p :: pattern, name =>
    if p = '*' then
      fits fuel pattern name ||
        match name with
        | [] => false
        | _ :: rest => fits fuel (p :: pattern) rest
    else
      match name with
      | [] => false
      | c :: rest =>
        match if p = '[' then set? pattern else none with
        | some (negated, set, after) => (inSet c set != negated) && fits fuel after rest
        | none => (p = '?' || p = c) && fits fuel pattern rest

/-- Whether a name that a directory lists fits a pattern. A hidden name needs a dot in the
pattern. -/
def listed (pattern name : Text) : Bool :=
  (name.head? != some '.' || pattern.head? == some '.') &&
    fits (pattern.length + name.length + 1) pattern name

def listing (path : Text) (onlyDirectories : Bool) (fs : Files) : List Text :=
  match place (if path.isEmpty then ['.'] else path) fs with
  | .ok (.directory above) =>
    let found := (fs.filterMap fun entry =>
      if isBelow above entry.1 then (way entry.1)[above.length]? else none).eraseDups
    if onlyDirectories then found.filter fun name => hasDirectory (above ++ [name]) fs else found
  | _ => []

/-- A path cut behind its last slash. Slashes at the end of the first part are dropped, unless it
consists of nothing else. -/
def splitLast (path : Text) : Text × Text :=
  let last := (path.reverse.takeWhile (· != '/')).reverse
  let lead := path.take (path.length - last.length)
  let bare := (lead.reverse.dropWhile (· == '/')).reverse
  (if bare.isEmpty then lead else bare, last)

def joined (directory name : Text) : Text :=
  if directory.isEmpty || directory.getLast? = some '/' then directory ++ name
  else directory ++ '/' :: name

/-- The names in a directory that the last part of a pattern stands for. -/
def named (directory last : Text) (onlyDirectories : Bool) (fs : Files) : List Text :=
  if last.any isMagic then (listing directory onlyDirectories fs).filter (listed last)
  else if last.isEmpty then if isDirectory directory fs then [last] else []
  else if isThere (joined directory last) fs then [last]
  else []

/-- The paths that fit a pattern, as they are found. Every part of a pattern but the last one stands
for directories. -/
def find (fs : Files) (onlyDirectories : Bool) : Nat → Text → List Text
  | 0, _ => []
  | fuel + 1, pattern =>
    let (lead, last) := splitLast pattern
    if !pattern.any isMagic then
      if if last.isEmpty then isDirectory lead fs else isThere pattern fs then [pattern] else []
    else if lead.isEmpty then named [] last onlyDirectories fs
    else
      let directories :=
        if lead != pattern && lead.any isMagic then find fs true fuel lead else [lead]
      directories.flatMap fun directory =>
        (named directory last onlyDirectories fs).map (joined directory)

def glob (pattern : Text) (fs : Files) : List Text :=
  Text.sorted (find fs false (pattern.length + 1) pattern)

end Files

end RoutePattern
