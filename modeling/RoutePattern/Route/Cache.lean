import RoutePattern.Cache
import RoutePattern.Route

/-!
Caches of routes that are ready for use, by their pattern and by whether they have to end.
-/

namespace RoutePattern

/-- What a cached route is found by: its pattern, and whether a match has to take the whole path. -/
abbrev RouteKey := Text × Bool

abbrev RouteCache (τ : Type) := Cache RouteKey Route τ

inductive PreparationError where
  | malformed (fault : SyntaxFault)
  | unusable (error : RouteError)

/-- A route whose matcher and renderer can both be made. -/
def Route.prepared (key : RouteKey) : Except PreparationError Route := do
  let r ← (Route.parse key.1 key.2).mapError .malformed
  let _ ← r.matcher.mapError .unusable
  let _ ← r.renderer.mapError .unusable
  return r

/-- What is noted when the matcher and the renderer of a route are made. -/
def Route.preparationRecords (key : RouteKey) : List Log.Record :=
  match Route.parse key.1 key.2 with
  | .error _ => []
  | .ok r =>
    r.matcherRecords ++ match r.matcher with
      | .error _ => []
      | .ok _ => r.rendererRecords

namespace RouteKey

/-- Whether a key has the given pattern and the given end; what is not given matches every key. -/
def covers (pattern : Option Text) (atEnd : Option Bool) (key : RouteKey) : Bool :=
  match pattern with
  | none => true
  | some p => key.1 == p && (atEnd.all fun flag => flag == key.2)

end RouteKey

namespace Cache

variable {α τ : Type}

/-- Drops the entries of a pattern, or all of them. -/
def invalidate (pattern : Option Text) (atEnd : Option Bool) (c : Cache RouteKey α τ) :
    Cache RouteKey α τ :=
  c.dropWhere (RouteKey.covers pattern atEnd)

def hasPattern (pattern : Text) (c : Cache RouteKey α τ) : Bool :=
  Table.has (pattern, false) c.entries || Table.has (pattern, true) c.entries

end Cache

namespace CacheStats

def hitRate (s : CacheStats Float) : Float :=
  let total := s.hits + s.misses
  if total = 0 then 0.0 else Float.ofNat s.hits / Float.ofNat total

def toValue (s : CacheStats Float) : Value :=
  .map [(.text "hits", .int s.hits), (.text "misses", .int s.misses),
    (.text "evictions", .int s.evictions), (.text "errors", .int s.errors),
    (.text "total_compile_time", .float s.totalCost), (.text "hit_rate", .float s.hitRate)]

end CacheStats

end RoutePattern
