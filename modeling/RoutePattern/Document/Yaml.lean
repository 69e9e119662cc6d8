import RoutePattern.Document.Yaml.Meaning

/-!
YAML documents: read into values in which an alias stands for the very mapping that its anchor has.
-/

namespace RoutePattern
namespace Document
namespace Yaml

def isAllowed (c : Char) : Bool :=
  c == '\t' || c == '\n' || c == '\r' || (' ' ≤ c && c ≤ '~') || c == '\u0085' ||
    ('\u00a0' ≤ c && c ≤ '\uFFFD') || 0xFFFF < c.toNat

/-- Reads a document; one without any node is null. -/
def read (source : Text) : Result Graph :=
  let text := Text.plainNewlines source
  match text.zipIdx.find? fun (c, _) => !isAllowed c with
  | some (c, index) => fail (.unprintable c index)
  | none => do
    match ← Node.read text with
    | none => return .ofValue .null
    | some root =>
      let drawn ← (root.drawnAt (text.length + 2) 0).mapError Trouble.failure
      return .ofNumbered (Table.ofEntries drawn.objects) drawn.datum

end Yaml
end Document
end RoutePattern
