/-!
Tables: finite maps as lists of entries in the order in which their keys were first put in.
-/

namespace RoutePattern

/-- Entries with pairwise different keys, oldest first. -/
abbrev Table (κ α : Type) := List (κ × α)

namespace Table

variable {κ α : Type} [BEq κ]

def get? (key : κ) : Table κ α → Option α
  | [] => none
  | (k, a) :: rest => if k == key then some a else get? key rest

def has (key : κ) (t : Table κ α) : Bool := (get? key t).isSome

/-- Sets the value of a key. A key that is there keeps its place; a new one comes last. -/
def put (key : κ) (value : α) : Table κ α → Table κ α
  | [] => [(key, value)]
  | (k, a) :: rest => if k == key then (k, value) :: rest else (k, a) :: put key value rest

def erase (key : κ) : Table κ α → Table κ α
  | [] => []
  | (k, a) :: rest => if k == key then rest else (k, a) :: erase key rest

/-- Puts every entry of the second table into the first one, in order. -/
def putAll (t entries : Table κ α) : Table κ α :=
  entries.foldl (fun t entry => put entry.1 entry.2 t) t

/-- The table that entries make when they are put in one after the other. -/
def ofEntries (entries : List (κ × α)) : Table κ α := putAll [] entries

def keys (t : Table κ α) : List κ := t.map (·.1)

end Table

end RoutePattern
