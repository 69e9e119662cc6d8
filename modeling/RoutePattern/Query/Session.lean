import RoutePattern.Query
import RoutePattern.Value.Refusal

/-!
Sessions with a query: requests one after the other, each with its reply. A list that is handed out
is the stored one, so it shows what is added to it until the query holds another list in its place.
-/

namespace RoutePattern

inductive QueryRequest where
  | size
  | shown
  | add (key value : Text)
  | first (key : Text) (other : Value)
  | all (key : Text)
  | stored (key : Text)
  | set (key : Text) (values : List Text)
  | erase (key : Text)
  | has (key : Text)
  | take (key : Text) (other : Option Value)
  | ensure (key : Text) (given : Value)

abbrev QueryReply := Except Refusal Value

namespace QueryRequest

/-- The key whose stored list a request hands out. -/
def handsOut? : QueryRequest → Option Text
  | stored key => some key
  | ensure key _ => some key
  | _ => none

/-- Whether the query holds another list, or none, under a key after a request. -/
def replaces (key : Text) : QueryRequest → Bool
  | set k _ => k == key
  | erase k => k == key
  | take k _ => k == key
  | _ => false

end QueryRequest

namespace Query

def listValue (values : List Text) : Value := .list (values.map .text)

def shown (q : Query) : Except Refusal Text :=
  (Value.map (q.map fun (key, values) => (.text key, listValue values))).quotedOf.map fun text =>
    "MultiDict(" ++ text ++ ")"

/-- The texts of a value: its own, or those of its items. -/
def textsIn : Value → List Text
  | .text t => [t]
  | .list vs => vs.flatMap fun
    | .text t => [t]
    | _ => []
  | _ => []

def noKey (key : Text) : QueryReply := .error (.raised .missingKey (Text.quoted key))

def run (q : Query) : QueryRequest → QueryReply × Query
  | .size => (.ok (.int q.length), q)
  | .shown => (q.shown.map .text, q)
  | .add key value => (.ok .null, q.add key value)
  | .first key other => (.ok (((q.first? key).map .text).getD other), q)
  | .all key => (.ok (listValue (q.all key)), q)
  | .stored key =>
    match Table.get? key q with
    | some values => (.ok (listValue values), q)
    | none => (noKey key, q)
  | .set key values => (.ok .null, Table.put key values q)
  | .erase key => if Table.has key q then (.ok .null, Table.erase key q) else (noKey key, q)
  | .has key => (.ok (.bool (Table.has key q)), q)
  | .take key other =>
    match Table.get? key q, other with
    | some values, _ => (.ok (listValue values), Table.erase key q)
    | none, some v => (.ok v, q)
    | none, none => (noKey key, q)
  | .ensure key given =>
    match Table.get? key q with
    | some values => (.ok (listValue values), q)
    | none => (.ok given, Table.put key (textsIn given) q)

/-- The replies to requests one after the other, each with its request and the query after it. -/
def runEach (q : Query) : List QueryRequest → List (QueryRequest × QueryReply × Query)
  | [] => []
  | request :: rest =>
    let (reply, after) := q.run request
    (request, reply, after) :: runEach after rest

/-- The list under a key as it stands before it is replaced, or at the end. -/
def lastList (key : Text) (now : Query) (later : List (QueryRequest × QueryReply × Query)) :
    Value :=
  let alive := later.takeWhile fun step => !step.1.replaces key
  listValue ((((alive.map fun step => step.2.2).getLast?).getD now).all key)

/-- Replies in which the lists that are handed out show what is added to them later on. -/
def settled : List (QueryRequest × QueryReply × Query) → List (QueryReply × Query)
  | [] => []
  | (request, reply, after) :: rest =>
    let seen : QueryReply :=
      match request.handsOut?, reply with
      | some key, .ok (.list _) => .ok (lastList key after rest)
      | _, _ => reply
    (seen, after) :: settled rest

/-- The replies to requests as they look in the end, each with the query after the request. -/
def runAll (q : Query) (requests : List QueryRequest) : List (QueryReply × Query) :=
  settled (q.runEach requests)

end Query

end RoutePattern
