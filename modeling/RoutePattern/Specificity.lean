import RoutePattern.Text

/-!
The order of templates by how specific they are. Templates are compared segment by segment by how
many captures a segment has; fewer is more specific, and an empty segment comes between none and
one. Where all shared segments tie, the longer template comes first.
-/

namespace RoutePattern
namespace Specificity

/-- The number of colons and opening braces of a segment; less than zero for an empty one. -/
def complexity (segment : Text) : Int :=
  if segment.isEmpty then -1 else (segment.count ':' + segment.count '\x7b' : Nat)

/-- The order of two complexities. Zero comes before everything else. -/
def compareComplexity (a b : Int) : Ordering :=
  if a = b then .eq
  else if a = 0 then .lt
  else if b = 0 then .gt
  else if a < b then .lt
  else .gt

/-- The order of two lists of segments. -/
def compareSegments : List Text → List Text → Ordering
  | [], [] => .eq
  | [], _ :: _ => .gt
  | _ :: _, [] => .lt
  | a :: as, b :: bs =>
    match compareComplexity (complexity a) (complexity b) with
    | .eq => compareSegments as bs
    | order => order

/-- The order of two templates; the more specific one is the lesser. -/
def compare (a b : Text) : Ordering :=
  compareSegments (Text.split '/' a) (Text.split '/' b)

/-- Sorts from most to least specific; what ties keeps its order. -/
def sortBy {α : Type} (path : α → Text) (items : List α) : List α :=
  items.mergeSort fun a b => compare (path a) (path b) != .gt

end Specificity
end RoutePattern
