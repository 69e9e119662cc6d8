import RoutePattern.Table
import RoutePattern.Text

/-!
Queries: the values of every key. A key may have several values, or an empty list of them.
-/

namespace RoutePattern

/-- The values of every query key, in the order in which the keys were first seen. -/
abbrev Query := Table Text (List Text)

namespace Query

def all (key : Text) (q : Query) : List Text := (Table.get? key q).getD []

def first? (key : Text) (q : Query) : Option Text := (all key q).head?

def add (key value : Text) (q : Query) : Query := Table.put key (all key q ++ [value]) q

def ofPairs (pairs : List (Text × Text)) : Query :=
  pairs.foldl (fun q pair => add pair.1 pair.2 q) []

end Query

end RoutePattern
