import RoutePattern.Table

/-!
A cache of items by key. It keeps at most so many items, drops the one that was used least recently
first, and drops an item that it finds to be too old. Times are given with every call.
-/

namespace RoutePattern

structure CacheEntry (α τ : Type) where
  item : α
  createdAt : τ
  lastAccessed : τ
  accessCount : Nat
  cost : τ

structure CacheStats (τ : Type) where
  hits : Nat
  misses : Nat
  evictions : Nat
  errors : Nat
  totalCost : τ

/-- A cache. Entries are in the order of their last use, the least recent first. A capacity of zero
or less stores nothing. -/
structure Cache (κ α τ : Type) where
  capacity : Int
  lifetime : Option τ
  counting : Bool
  entries : Table κ (CacheEntry α τ)
  stats : CacheStats τ

namespace CacheEntry

variable {α τ : Type}

/-- Whether more time than the lifetime has gone by since the entry was made. -/
def isExpired [Sub τ] [LT τ] [DecidableLT τ] (lifetime : Option τ) (now : τ)
    (e : CacheEntry α τ) : Bool :=
  match lifetime with
  | some limit => decide (limit < now - e.createdAt)
  | none => false

def used (now : τ) (e : CacheEntry α τ) : CacheEntry α τ :=
  ⟨e.item, e.createdAt, now, e.accessCount + 1, e.cost⟩

end CacheEntry

namespace CacheStats

variable {τ : Type}

def none [OfNat τ 0] : CacheStats τ := ⟨0, 0, 0, 0, 0⟩

def hit (s : CacheStats τ) : CacheStats τ := { s with hits := s.hits + 1 }

def miss (s : CacheStats τ) : CacheStats τ := { s with misses := s.misses + 1 }

def evict (count : Nat) (s : CacheStats τ) : CacheStats τ :=
  { s with evictions := s.evictions + count }

def fail (s : CacheStats τ) : CacheStats τ := { s with errors := s.errors + 1 }

def spend [Add τ] (cost : τ) (s : CacheStats τ) : CacheStats τ :=
  { s with totalCost := s.totalCost + cost }

end CacheStats

namespace Cache

variable {κ α ε τ β : Type}

def empty [OfNat τ 0] (capacity : Int) (lifetime : Option τ) (counting : Bool) : Cache κ α τ :=
  ⟨capacity, lifetime, counting, [], .none⟩

def tally (f : CacheStats τ → CacheStats τ) (c : Cache κ α τ) : Cache κ α τ :=
  if c.counting then { c with stats := f c.stats } else c

def size (c : Cache κ α τ) : Nat := c.entries.length

variable [BEq κ]

/-- Looks up a key. An item that is found becomes the most recent one; one that is too old is
dropped. -/
def get [Sub τ] [LT τ] [DecidableLT τ] (now : τ) (key : κ) (c : Cache κ α τ) :
    Option α × Cache κ α τ :=
  match Table.get? key c.entries with
  | none => (none, c.tally .miss)
  | some e =>
    if e.isExpired c.lifetime now then
      (none, { c with entries := Table.erase key c.entries }.tally fun s => (s.evict 1).miss)
    else
      (some e.item,
        { c with entries := Table.erase key c.entries ++ [(key, e.used now)] }.tally .hit)

/-- How many entries have to go before a key can be stored. -/
def excess (key : κ) (c : Cache κ α τ) : Nat :=
  if Table.has key c.entries then 0 else c.entries.length + 1 - c.capacity.toNat

/-- Stores an item as the most recent one, in place of the least recent ones if there is no room. -/
def put (now : τ) (key : κ) (item : α) (cost : τ) (c : Cache κ α τ) : Cache κ α τ :=
  if c.capacity ≤ 0 then c
  else
    let kept := c.entries.drop (c.excess key)
    let entry : CacheEntry α τ := ⟨item, now, now, 0, cost⟩
    { c with entries := Table.erase key kept ++ [(key, entry)] }.tally (.evict (c.excess key))

/-- Looks up a key, and makes and stores the item where there is none, which takes until `later`. A
failure is counted and nothing is stored. -/
def getOrMake [Add τ] [Sub τ] [LT τ] [DecidableLT τ] (now later cost : τ) (key : κ)
    (made : Except ε α) (c : Cache κ α τ) : Except ε α × Cache κ α τ :=
  match c.get now key with
  | (some item, c) => (.ok item, c)
  | (none, c) =>
    match made with
    | .error e => (.error e, c.tally .fail)
    | .ok item => (.ok item, (c.put later key item cost).tally (.spend cost))

def dropWhere (chosen : κ → Bool) (c : Cache κ α τ) : Cache κ α τ :=
  { c with entries := c.entries.filter fun entry => !chosen entry.1 }

def resetStats [OfNat τ 0] (c : Cache κ α τ) : Cache κ α τ := { c with stats := .none }

/-- The cache under another capacity; what it keeps stays. -/
def withCapacity (capacity : Int) (c : Cache κ α τ) : Cache κ α τ := { c with capacity := capacity }

/-- Does something while nothing can be stored. -/
def disabled (work : Cache κ α τ → β × Cache κ α τ) (c : Cache κ α τ) : β × Cache κ α τ :=
  let (result, after) := work (c.withCapacity 0)
  (result, after.withCapacity c.capacity)

end Cache

end RoutePattern
