import RoutePattern.Value.Refusal

/-!
Issues: problems with parameters or values, each with the path to where it is.
-/

namespace RoutePattern

inductive IssueKind where
  | missing
  | type
  | invalid
  | transform
deriving DecidableEq, Repr

namespace IssueKind

def name : IssueKind → String
  | missing => "missing"
  | type => "type"
  | invalid => "invalid"
  | transform => "transform"

def named (name : Text) : Except Refusal IssueKind :=
  match [missing, type, invalid, transform].find? fun kind => kind.name.toList == name with
  | some kind => .ok kind
  | none => .error (.raised .badValue (Text.quoted name ++ " is not a valid IssueKind"))

end IssueKind

/-- A problem. Its path is a parameter key, and the index of an item where the value is a list. -/
structure Issue where
  kind : IssueKind
  path : List Value
  message : Text

namespace Issue

def text (i : Issue) : Except Refusal Text :=
  if i.path.isEmpty then .ok i.message
  else (Value.textsOf i.path).map fun steps => Text.join ['.'] steps ++ ": " ++ i.message

def toValue (i : Issue) : Value :=
  .map [(.text "kind", .text i.kind.name), (.text "path", .list i.path),
    (.text "message", .text i.message)]

/-- The issue with the key at the head of its path replaced, if the key is one of those given. -/
def rekeyed? (keys : Table Value Value) (i : Issue) : Option Issue :=
  match i.path with
  | [] => none
  | key :: rest => (Table.get? key keys).map fun k => ⟨i.kind, k :: rest, i.message⟩

def rekeyed (keys : Table Value Value) (i : Issue) : Issue := (i.rekeyed? keys).getD i

end Issue

/-- Why a schema gives no value: issues that it reports, or a refusal that it does not handle. -/
inductive SchemaFault where
  | issues (issues : List Issue)
  | refusal (refusal : Refusal)

namespace SchemaFault

def single {α : Type} (kind : IssueKind) (path : List Value) (message : Text) :
    Except SchemaFault α :=
  .error (.issues [⟨kind, path, message⟩])

end SchemaFault

end RoutePattern
