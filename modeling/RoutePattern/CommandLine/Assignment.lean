import RoutePattern.Text.Digit
import RoutePattern.Value

/-!
Assignments: the values for a route, each as a key, an equals sign and text. The values of a capture
that may have several make up a list.
-/

namespace RoutePattern
namespace Assignment

inductive Fault where
  | noEquals (text : Text)
  | number (fault : Whole.Fault)
deriving DecidableEq, Repr

def key (name : Text) : Except Whole.Fault Value :=
  if !name.isEmpty && name.all Text.isDigitLike then (Whole.read 10 name).map .int
  else .ok (.text name)

def extended (old : Option Value) (text : Text) : Value :=
  match old with
  | some (.list vs) => .list (vs ++ [.text text])
  | _ => .list [.text text]

def add (multiple : List Value) (params : Table Value Value) (assignment : Text) :
    Except Fault (Table Value Value) :=
  match Text.cut '=' assignment with
  | none => .error (.noEquals assignment)
  | some (name, text) => do
    let k ← (key name).mapError .number
    return Table.put k
      (if multiple.contains k then extended (Table.get? k params) text else .text text) params

/-- The values that assignments give. The keys with several values are known. -/
def readAll (multiple : List Value) (assignments : List Text) : Except Fault (Table Value Value) :=
  assignments.foldlM (add multiple) []

def write (key : Text) : Value → List Text
  | .text t => [key ++ '=' :: t]
  | .list vs => vs.flatMap fun
    | .text t => [key ++ '=' :: t]
    | _ => []
  | _ => []

end Assignment
end RoutePattern
