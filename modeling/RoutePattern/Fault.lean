import RoutePattern.Schema.Issue

/-!
Faults: expected failures as values, with a code, a domain and a severity.
-/

namespace RoutePattern

inductive Severity where
  | info
  | warn
  | error
  | fatal
deriving DecidableEq, Repr

namespace Severity

def name : Severity → String
  | info => "info"
  | warn => "warn"
  | error => "error"
  | fatal => "fatal"

def named (name : Text) : Except Refusal Severity :=
  match [info, warn, error, fatal].find? fun s => s.name.toList == name with
  | some s => .ok s
  | none => .error (.raised .badValue (Text.quoted name ++ " is not a valid Severity"))

end Severity

/-- The area of work that a fault belongs to. Domains with the same name are the same. -/
structure FaultDomain where
  name : Text
  description : Text

namespace FaultDomain

def config : FaultDomain := ⟨"config", "Configuration errors"⟩

def routing : FaultDomain := ⟨"routing", "Route matching errors"⟩

def schema : FaultDomain := ⟨"schema", "Parameter decoding and encoding errors"⟩

/-- The domain of a name: one of those above, or one without a description. -/
def named (name : Text) : FaultDomain :=
  ([config, routing, schema].find? fun d => d.name == name).getD ⟨name, []⟩

def shown (d : FaultDomain) : Text := "FaultDomain(name='" ++ d.name ++ "')"

/-- How severe the faults of a domain are unless they say so themselves. -/
def severity (d : FaultDomain) : Severity :=
  if d.name = config.name then .fatal
  else if d.name = schema.name then .warn
  else .error

end FaultDomain

structure Fault where
  title : Text
  code : Text
  message : Text
  domain : FaultDomain
  severity : Severity
  retryable : Bool
  isPublic : Bool
  metadata : Value

/-- A value, or the empty mapping in place of one that counts as false. -/
def Value.orEmpty (v : Value) : Value := if v.isTruthy then v else .map []

namespace Fault

/-- A fault, or why it cannot be made: code, message and domain have to be given. -/
def make (title : Text) (code message : Option Text) (domain : Option FaultDomain)
    (severity : Option Severity) (retryable : Option Bool) (isPublic : Bool)
    (metadata : Value) : Except Refusal Fault :=
  match code, message, domain with
  | some code, some message, some domain =>
    .ok ⟨title, code, message, domain, severity.getD domain.severity, retryable.getD false,
      isPublic, metadata.orEmpty⟩
  | _, _, _ =>
    .error (.raised .badType (title ++ " missing required code, message, or domain"))

def text (f : Fault) : Text := "[" ++ f.code ++ "] " ++ f.message

def shown (f : Fault) : Text :=
  f.title ++ "(code=" ++ Text.quoted f.code ++ ", domain=" ++ f.domain.name ++ ", severity=" ++
    f.severity.name ++ ", public=" ++ (if f.isPublic then "True" else "False") ++ ")"

def entries (f : Fault) : List (Value × Value) :=
  [(.text "code", .text f.code), (.text "message", .text f.message),
    (.text "domain", .text f.domain.name), (.text "severity", .text f.severity.name),
    (.text "retryable", .bool f.retryable), (.text "public", .bool f.isPublic),
    (.text "metadata", f.metadata)]

def ofIssues (issues : List Issue) (message : Text) (metadata : Table Value Value) : Fault :=
  ⟨"SchemaError", "SCHEMA_INVALID", message, .schema, .warn, false, true,
    .map (Table.putAll [(.text "issues", .list (issues.map Issue.toValue))] metadata)⟩

def ofSettings (message : Text) (metadata : Value) : Fault :=
  ⟨"ConfigError", "CONFIG_INVALID", message, .config, .fatal, false, false, metadata.orEmpty⟩

def schemaMessage : Text := "Schema validation failed"

end Fault

inductive IssueNote where
  | issue (issue : Issue)
  | text (text : Text)

namespace IssueNote

def write : IssueNote → Except Refusal Text
  | issue i => i.text
  | text t => .ok t

def toValue : IssueNote → Value
  | issue i => i.toValue
  | text t => .text t

def writeAll : List IssueNote → Except Refusal (List Text)
  | [] => .ok []
  | n :: rest => do
    let first ← n.write
    let others ← writeAll rest
    return first :: others

end IssueNote

inductive RoutingDetail where
  | plain
  | target (path : Text)
  | issues (notes : List IssueNote)

structure RoutingFault where
  fault : Fault
  route : Option Text
  detail : RoutingDetail

namespace RoutingFault

def make (code message : Text) (route : Option Text) (domain : FaultDomain)
    (severity : Option Severity) (isPublic : Bool) (metadata : Value) : RoutingFault :=
  ⟨⟨"RoutingFault", code, message, domain, severity.getD domain.severity, false, isPublic,
    metadata.orEmpty⟩, route, .plain⟩

def notMatched (route : Option Text) (target : Text) : RoutingFault :=
  ⟨⟨"RouteNotMatched", "ROUTE_NOT_MATCHED",
      "'" ++ target ++ "' does not match route '" ++ route.getD "None" ++ "'", .routing, .error,
      false, true, .map [(.text "path", .text target)]⟩,
    route, .target target⟩

def ofNotes (title code message : Text) (route : Option Text) (notes : List IssueNote) :
    Except Refusal RoutingFault :=
  (IssueNote.writeAll notes).map fun texts =>
    let summary := Text.join "; " texts
    ⟨⟨title, code, if summary.isEmpty then message else message ++ ": " ++ summary, .schema, .warn,
        false, true, .map []⟩,
      route, .issues notes⟩

/-- The target has the shape of the route, but its parameters are not valid. -/
def decodeFailed (route : Option Text) (notes : List IssueNote) : Except Refusal RoutingFault :=
  ofNotes "RouteDecodeError" "ROUTE_DECODE_ERROR" "Route parameters failed to decode" route notes

def encodeFailed (route : Option Text) (notes : List IssueNote) : Except Refusal RoutingFault :=
  ofNotes "RouteEncodeError" "ROUTE_ENCODE_ERROR" "Value failed to encode" route notes

def toValue (f : RoutingFault) : Value :=
  .map (f.fault.entries ++
    [(.text "_tag", .text f.fault.title),
      (.text "route", (f.route.map Value.text).getD .null)] ++
    match f.detail with
    | .plain => []
    | .target path => [(.text "path", .text path)]
    | .issues notes => [(.text "issues", .list (notes.map IssueNote.toValue))])

end RoutingFault

end RoutePattern
