import RoutePattern.Text

namespace RoutePattern
namespace Text

/-- What follows a code at the beginning of a text: escape, an opening bracket, parameters and a
letter. -/
def afterCode? : Text → Option Text
  | '\x1b' :: '[' :: rest =>
    match rest.dropWhile fun c => c.isDigit || c == ';' || c == '?' with
    | c :: after => if c.isAlpha then some after else none
    | [] => none
  | _ => none

def withoutCodes (text : Text) : Text :=
  go text.length text
where
  go : Nat → Text → Text
    | _, [] => []
    | 0, text => text
    | fuel + 1, c :: rest =>
      match afterCode? (c :: rest) with
      | some after => go fuel after
      | none => c :: go fuel rest

end Text
end RoutePattern
