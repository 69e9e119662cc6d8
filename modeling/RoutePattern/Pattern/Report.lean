import RoutePattern.Matcher
import RoutePattern.Renderer

/-!
Captures, parts and cursors as values, for those who look into a pattern.
-/

namespace RoutePattern

def Capture.toValue (c : Capture) : Value :=
  .map [(.text "key", c.key.value), (.text "literal", .null), (.text "prefix", .text c.lead),
    (.text "optional", .bool c.optional), (.text "multiple", .bool c.multiple)]

def Part.toValue : Part → Value
  | literal text optional =>
    .map [(.text "key", .null), (.text "literal", .text text), (.text "prefix", .text []),
      (.text "optional", .bool optional), (.text "multiple", .bool false)]
  | capture c => c.toValue

/-- The state of a cursor. One before all segments has none. -/
def Cursor.toValue (c : Cursor) : Except Refusal Value :=
  if c.isBefore then .error .beforeSegments
  else .ok <| .map [(.text "index", .int c.index), (.text "offset", .int c.offset),
      (.text "head", (c.head?.map Value.text).getD .null),
      (.text "remaining", .list (c.remaining.map .text)), (.text "exhausted", .bool c.isExhausted)]

end RoutePattern
