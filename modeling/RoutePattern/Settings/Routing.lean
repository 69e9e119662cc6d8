import RoutePattern.Cache
import RoutePattern.Fault
import RoutePattern.Log
import RoutePattern.Settings

/-!
The settings of routing: what they are, which values they take, and where they stand among all
settings.
-/

namespace RoutePattern

inductive Seconds where
  | whole (n : Int)
  | float (x : Float)

namespace Seconds

def toValue : Seconds → Value
  | whole n => .int n
  | float x => .float x

/-- The float that stands for a span where times are compared with it. -/
def bound : Seconds → Float
  | whole n => ((Value.int n).bound?).getD 0.0
  | float x => x

end Seconds

structure RoutingSettings where
  cacheSize : Nat
  cacheLifetime : Option Seconds
  defaultEnd : Bool
  logLevel : Log.Level

inductive SettingsFault where
  | wrongKind (field wanted got : Text)
  | negativeSize
  | noPositiveLifetime
  | unknownLevel
  | noSection
  | unknownFileKind (path : Text)
  | noMapping (path : Text)
  | noJson (path detail : Text)
  | noYaml (path detail : Text)
deriving DecidableEq, Repr

namespace SettingsFault

def message : SettingsFault → Text
  | wrongKind field wanted got =>
    "Config field '" ++ field ++ "' expected " ++ wanted ++ ", got " ++ got
  | negativeSize => "Config field 'cache_size' must not be negative"
  | noPositiveLifetime => "Config field 'cache_ttl' must be positive"
  | unknownLevel =>
    "Config field 'log_level' must be one of " ++ Text.join ", " (Log.Level.all.map Log.Level.name)
  | noSection => "Config section 'routing' must be a mapping"
  | unknownFileKind path => "Unsupported config file type: " ++ path
  | noMapping path => "Config file " ++ path ++ " must contain a mapping"
  | noJson path detail => "Invalid JSON in " ++ path ++ ": " ++ detail
  | noYaml path detail => "Invalid YAML in " ++ path ++ ": " ++ detail

def metadata : SettingsFault → Table Value Value
  | unknownFileKind path => [(.text "path", .text path)]
  | noMapping path => [(.text "path", .text path)]
  | noJson path _ => [(.text "path", .text path)]
  | noYaml path _ => [(.text "path", .text path)]
  | _ => []

def fault (f : SettingsFault) : Fault := .ofSettings f.message (.map f.metadata)

end SettingsFault

/-- Why there are no settings: a fault of theirs, or a value that is not converted. -/
inductive SettingsError where
  | fault (fault : SettingsFault)
  | refusal (refusal : Refusal)

namespace RoutingSettings

def refuse {α : Type} (f : SettingsFault) : Except SettingsError α := .error (.fault f)

def sizeOf : Value → Except SettingsError Nat
  | .int n => if n < 0 then refuse .negativeSize else .ok n.toNat
  | v => refuse (.wrongKind "cache_size" "int" v.kind)

/-- A lifetime, or none. What is no number passes for positive. -/
def lifetimeOf : Value → Except SettingsError (Option Seconds)
  | .null => .ok none
  | .int n => if n ≤ 0 then refuse .noPositiveLifetime else .ok (some (.whole n))
  | .float x => if x ≤ 0 then refuse .noPositiveLifetime else .ok (some (.float x))
  | v => refuse (.wrongKind "cache_ttl" "number" v.kind)

def endOf : Value → Except SettingsError Bool
  | .bool b => .ok b
  | v => refuse (.wrongKind "default_end" "bool" v.kind)

def levelOf (v : Value) : Except SettingsError Log.Level := do
  let name ← v.textOf.mapError .refusal
  match Log.Level.ofName? (Text.upperAscii name) with
  | some level => return level
  | none => refuse .unknownLevel

def names : List Text := ["cache_size", "cache_ttl", "default_end", "log_level"]

def isName : Value → Bool
  | .text t => names.contains t
  | _ => false

def default : RoutingSettings := ⟨1000, none, false, .warning⟩

def field {α : Type} (given : Settings) (name : String) (read : Value → Except SettingsError α)
    (other : α) : Except SettingsError α :=
  match Table.get? (.text name) given with
  | some v => read v
  | none => .ok other

def ofValues (given : Settings) : Except SettingsError RoutingSettings := do
  let size ← field given "cache_size" sizeOf default.cacheSize
  let lifetime ← field given "cache_ttl" lifetimeOf default.cacheLifetime
  let atEnd ← field given "default_end" endOf default.defaultEnd
  let level ← field given "log_level" levelOf default.logLevel
  return ⟨size, lifetime, atEnd, level⟩

/-- The settings that values make, none of which may have another name. The first one that has decides
what is said; `self` is the name of something that is given already. -/
def ofOnly (given : Settings) : Except SettingsError RoutingSettings :=
  match given.keys.find? fun key => !isName key with
  | none => ofValues given
  | some key => do
    let name ← key.textOf.mapError .refusal
    let what : Text :=
      if name == "self".toList then "multiple values for argument '"
      else "an unexpected keyword argument '"
    .error (.refusal (.raised .badType
      ("RoutingConfig.__init__() got " ++ what ++ name ++ "'")))

def toValue (s : RoutingSettings) : Value :=
  .map [(.text "cache_size", .int s.cacheSize),
    (.text "cache_ttl", (s.cacheLifetime.map Seconds.toValue).getD .null),
    (.text "default_end", .bool s.defaultEnd), (.text "log_level", .text s.logLevel.name)]

def cache {κ α : Type} (s : RoutingSettings) : Cache κ α Float :=
  .empty s.cacheSize (s.cacheLifetime.map Seconds.bound) true

end RoutingSettings

namespace Settings

/-- Whether one key comes before another, if they can be compared: numbers with numbers, texts with
texts, bytes with bytes and days with days. -/
def keyBefore? (a b : Value) : Option Bool :=
  match a, b with
  | .text s, .text t => some (Text.before s t)
  | .bytes s, .bytes t => some (s < t)
  | .date d, .date e => some (Text.before d.write e.write)
  | _, _ => a.less? b

def insertKey (key : Value) : List Value → Except Refusal (List Value)
  | [] => .ok [key]
  | k :: rest =>
    match keyBefore? key k with
    | none =>
      .error (.raised .badType ("'<' not supported between instances of '" ++
        key.qualifiedKind ++ "' and '" ++ k.qualifiedKind ++ "'"))
    | some true => .ok (key :: k :: rest)
    | some false => (insertKey key rest).map (k :: ·)

def sortKeys (keys : List Value) : Except Refusal (List Value) :=
  keys.foldlM (fun sorted key => insertKey key sorted) []

/-- The names of unknown settings as one text. They have to be texts. -/
def listNames (index : Nat) : List Value → Except Refusal (List Text)
  | [] => .ok []
  | .text t :: rest => (listNames (index + 1) rest).map (t :: ·)
  | v :: _ =>
    .error (.raised .badType ("sequence item " ++ Text.ofNat index ++
      ": expected str instance, " ++ v.qualifiedKind ++ " found"))

def unknownRecords (section_ : Settings) : Except Refusal (List Log.Record) := do
  let unknown ← sortKeys (section_.keys.filter fun key => !RoutingSettings.isName key)
  if unknown.isEmpty then return []
  else
    let names ← listNames 0 unknown
    return [⟨.warning, .settings, "Ignoring unknown routing settings: " ++ Text.join ", " names⟩]

/-- The values of the routing settings. They stand at the top or in the routing section, and the
section counts. -/
def routingValues (section_ s : Settings) : Settings :=
  Table.putAll (s.filter fun entry => RoutingSettings.isName entry.1)
    (section_.filter fun entry => RoutingSettings.isName entry.1)

/-- The routing settings among all settings, and what is noted on the way. -/
def routing (s : Settings) : List Log.Record × Except SettingsError RoutingSettings :=
  match (Table.get? (.text "routing") s).getD (.map []) with
  | .map section_ =>
    match unknownRecords section_ with
    | .ok records => (records, RoutingSettings.ofValues (routingValues section_ s))
    | .error r => ([], .error (.refusal r))
  | _ => ([], .error (.fault .noSection))

end Settings

end RoutePattern
