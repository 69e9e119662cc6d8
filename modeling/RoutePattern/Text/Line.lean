import RoutePattern.Text

namespace RoutePattern
namespace Text

/-- Line ends of every platform as single newlines. -/
def plainNewlines : Text → Text
  | [] => []
  | '\r' :: '\n' :: rest => '\n' :: plainNewlines rest
  | c :: rest => (if c = '\r' then '\n' else c) :: plainNewlines rest

/-- The line and the column of the place where the first text ends, both counted from one. -/
def place (before : Text) : Nat × Nat :=
  (before.count '\n' + 1, (before.reverse.takeWhile (· != '\n')).length + 1)

end Text
end RoutePattern
