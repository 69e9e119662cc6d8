import RoutePattern.Document.Assignments
import RoutePattern.Document.Yaml
import RoutePattern.Files
import RoutePattern.Settings.Routing

/-!
Loading settings. Later sources override earlier ones: files in the order in which they are named,
then a file of assignments, then the environment, then what is given directly.
-/

namespace RoutePattern

/-- Why a document is not read: it is malformed, or a value in it is refused. -/
inductive DocumentFailure where
  | malformed (detail : Text)
  | refusal (refusal : Refusal)

/-- How files are read whose formats are not defined here. -/
structure SettingsReaders where
  yaml : Text → Text → Except DocumentFailure Graph
  /-- The names of a file of assignments, by the environment and the text of the file. A name may have no
  value. -/
  assignments : Table Text Text → Text → List (Text × Option Text)

def SettingsReaders.standard : SettingsReaders where
  yaml path text := (Document.Yaml.read text).mapError fun
    | Document.Yaml.Failure.fault fault => .malformed (fault.describe path)
    | Document.Yaml.Failure.refusal refusal => .refusal refusal
  assignments := Document.Assignments.read

structure SettingsSources where
  paths : List Text
  lead : Text
  assignments : Option Text
  environment : Table Text Text
  overrides : Settings

namespace Settings

def usualLead : Text := "BIROUTE_"

def ofFileValue (path : Text) (g : Graph) : Except SettingsError Graph :=
  if g.isMapping then .ok g else .error (.fault (.noMapping path))

def openRefusal (path : Text) (fault : Files.OpenFault) : Refusal :=
  .raised (match fault with
    | .noSuchFile => .noSuchFile
    | .isDirectory => .isDirectory
    | .notADirectory => .notADirectory)
    ("[Errno " ++ Text.ofNat fault.number ++ "] " ++ fault.message ++ ": " ++ Text.quoted path)

section

variable (readers : SettingsReaders) (fs : Files)

/-- The document of a file of a kind that its name tells. An empty YAML document is an empty mapping. -/
def ofFile (path : Text) : Except SettingsError Graph := do
  let shown := Files.normal path
  let text := (Files.read shown fs).mapError fun fault => .refusal (openRefusal shown fault)
  let kind := Files.suffix path
  if kind == ".json".toList then
    match Document.Json.read (← text) with
    | .ok v => ofFileValue shown (.ofValue v)
    | .error (.malformed cause source index) =>
      .error (.fault (.noJson shown (Document.Json.Fault.describe cause source index)))
    | .error (.number fault) => .error (.refusal (.digits fault))
  else if kind == ".yaml".toList || kind == ".yml".toList then
    match readers.yaml shown (← text) with
    | .ok g => if g.isTruthy then ofFileValue shown g else .ok (.ofValue (.map []))
    | .error (.malformed detail) => .error (.fault (.noYaml shown detail))
    | .error (.refusal refusal) => .error (.refusal refusal)
  else .error (.fault (.unknownFileKind shown))

def filePaths (sources : SettingsSources) : List Text :=
  sources.paths.flatMap fun pattern => Files.glob pattern fs

/-- The assignments of a file that have a value; none where there is no file. -/
def fileAssignments (sources : SettingsSources) : List (Text × Text) :=
  match sources.assignments.bind fun p => (Files.read p fs).toOption with
  | some text =>
    (readers.assignments sources.environment text).filterMap fun (name, v) => v.map (name, ·)
  | none => []

/-- The settings of all sources, which are merged into one mapping. -/
def loadWith (sources : SettingsSources) : Except SettingsError Settings := do
  let loaded : Heap ← (filePaths fs sources).foldlM
    (fun h path => do (h.mergeGraph (← ofFile readers fs path) 0).mapError .refusal) [[]]
  let change (f : Nat → Heap → Except Refusal Heap) (h : Heap) : Except SettingsError Heap :=
    (f 0 h).mapError .refusal
  let assigned ← change (Heap.assignAll sources.lead (fileAssignments readers fs sources)) loaded
  let surrounded ← change (Heap.assignAll sources.lead sources.environment) assigned
  let overridden ← change (Heap.mergeGraph (.ofValue (.map sources.overrides))) surrounded
  (overridden.settings 0).mapError .refusal

end

def load (fs : Files) (sources : SettingsSources) : Except SettingsError Settings :=
  loadWith .standard fs sources

end Settings

end RoutePattern
