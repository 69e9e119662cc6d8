import RoutePattern.CommandLine.Assignment
import RoutePattern.CommandLine.Help
import RoutePattern.CommandLine.Invocation
import RoutePattern.Description
import RoutePattern.Route.Cache
import RoutePattern.Settings.Load
import RoutePattern.Text.Alphanumeric
import RoutePattern.Text.Terminal

/-!
The program on the command line: what it writes and how it ends, given its arguments and what it
finds around it.
-/

namespace RoutePattern

structure Surroundings where
  files : Files
  environment : Table Text Text
  input : Text

/-- How the program ends. A refusal that it does not expect is not shown to its user. -/
structure Outcome where
  exitCode : Nat
  output : Text
  errors : Text
  refusal : Option Refusal

namespace Outcome

def line (text : Text) : Text := Text.withoutCodes (text ++ ['\n'])

def printed (text : Text) : Outcome := ⟨0, line text, [], none⟩

def printedLines (lines : List Text) : Outcome := ⟨0, lines.flatMap line, [], none⟩

def failed (exitCode : Nat) (text : Text) : Outcome := ⟨exitCode, [], line text, none⟩

def refused (refusal : Refusal) : Outcome := ⟨1, [], [], some refusal⟩

def misused (scope : Scope) (fault : UsageFault) : Outcome := failed 2 (fault.report scope)

def document (exitCode : Nat) (v : Value) : Outcome :=
  match Document.Json.write v with
  | .ok text => ⟨exitCode, line text, [], none⟩
  | .error fault => refused (.digits fault)

def diagnosed (d : Diagnostic) : Outcome :=
  match d.format with
  | .ok text => failed 2 ("Error: " ++ text)
  | .error r => refused r

def ofRouteError : RouteError → Outcome
  | .unmatchable f => diagnosed (.ofLayout f)
  | .unrenderable f => diagnosed (.ofRenderLayout f)
  | .interpolation f => failed 1 ("Error: " ++ f.message)
  | .refusal r => refused r

def ofPreparationError : PreparationError → Outcome
  | .malformed f => diagnosed (.ofSyntax none f)
  | .unusable e => ofRouteError e

def ofSettingsError : SettingsError → Outcome
  | .fault f => failed 1 ("Error: Invalid configuration: " ++ f.message)
  | .refusal r => refused r

def after (errors : Text) (o : Outcome) : Outcome := { o with errors := errors ++ o.errors }

end Outcome

abbrev Report := List Log.Record × Outcome

namespace Report

def withRoute (key : RouteKey) (work : Route → Report) : Report :=
  match Route.prepared key with
  | .error e => (Route.preparationRecords key, .ofPreparationError e)
  | .ok r =>
    let (records, outcome) := work r
    (Route.preparationRecords key ++ records, outcome)

def capture (target : Text) (r : Route) : Outcome :=
  match r.accept target with
  | .error e => .ofRouteError e
  | .ok (some params) => .document 0 (.map (Route.paramEntries params))
  | .ok none =>
    .failed 1 ("No match: '" ++ target ++ "' does not match '" ++ r.pattern.path ++ "'")

def decode (target : Text) (r : Route) : Outcome :=
  match r.decode target with
  | .error e => .ofRouteError e
  | .ok (.ok v) => .document 0 v
  | .ok (.error fault) => .document 1 fault.toValue

def render (assignments : List Text) (r : Route) : Outcome :=
  let multiple := (r.schema.captures.filter Capture.multiple).map fun c => c.key.value
  match Assignment.readAll multiple assignments with
  | .error (.noEquals text) => .misused (.command .render) (.noAssignment text)
  | .error (.number fault) => .refused (.digits fault)
  | .ok args =>
    match r.render (.map args) with
    | .ok text => .printed text
    | .error e => .ofRouteError e

/-- The patterns in the lines of a text. Lines of white space alone are left out. -/
def patternLines (text : Text) : List Text :=
  ((Text.split '\n' (Text.plainNewlines text)).map Text.trimBlank).filter (!·.isEmpty)

/-- The text that patterns are read from. A dash stands for the input. -/
def sourceText (s : Surroundings) : Option Text → Except UsageFault Text
  | none => .ok []
  | some path =>
    if path == ['-'] then .ok s.input
    else (Files.read path s.files).mapError (.unreadable path)

def sort (patterns : List Text) : Except UsageFault Outcome :=
  if patterns.isEmpty then .error .noPatterns
  else .ok (.printedLines (Specificity.sortBy id patterns))

def parts (r : Route) : Except Refusal Value := do
  let route ← r.toValue
  let template ← r.template?
  return .map (route.entries?.getD [] ++
    [(.text "openapi_path", .text template),
      (.text "params", .list (r.descriptions.map ParamDescription.toValue))])

def inspect (r : Route) : Outcome :=
  match parts r with
  | .ok v => .document 0 v
  | .error refusal => .refused refusal

def ofCommand (s : Surroundings) (settings : RoutingSettings) (i : Invocation) :
    Command → Except UsageFault Report
  | .accept => do
    let operands ← i.exactly Command.accept.operands
    let pattern := operands.headD []
    let target := operands.getLastD []
    return withRoute (pattern, i.atEnd?.getD settings.defaultEnd) fun r =>
      if i.has .decode then (r.decodeRecords target, decode target r) else ([], capture target r)
  | .render => do
    let operands ← i.exactly Command.render.operands
    return withRoute (operands.headD [], settings.defaultEnd) fun r =>
      (r.schemaRecords, render (i.values .param) r)
  | .sort => do
    let source := i.value? .source
    if source.any Files.isUnreadable then return ([], .refused Refusal.unreadablePath)
    else
      let text ← sourceText s source
      return ([], ← sort (i.operands ++ patternLines text))
  | .inspect => do
    let operands ← i.exactly Command.inspect.operands
    return withRoute (operands.headD [], i.atEnd?.getD settings.defaultEnd) fun r =>
      (r.schemaRecords, inspect r)

def ofArguments (s : Surroundings) (settings : RoutingSettings) (c : Command) (args : List Text) :
    Report :=
  let report : Except UsageFault Report := do
    let i ← (Scope.command c).invocation args
    if i.has .help then return ([], .printed (Help.text (.command c)))
    else ofCommand s settings i c
  match report with
  | .ok report => report
  | .error fault => ([], .misused (.command c) fault)

end Report

namespace CommandLine

def version : Text := "0.1.0"

/-- Records as lines. A wordy program shows all that its settings ask for, each with its level and
its source; another one shows the messages of warnings and worse. -/
def shown (wordy : Bool) (level : Log.Level) (records : List Log.Record) : Text :=
  let kept := records.filter fun r => r.reaches level && (wordy || r.reaches .warning)
  kept.flatMap fun r => (if wordy then r.line else r.message) ++ ['\n']

def sources (s : Surroundings) (i : Invocation) : SettingsSources where
  paths := i.values .config
  lead := Settings.usualLead
  assignments := (i.value? .assignments).filter (!·.isEmpty)
  environment := s.environment
  overrides := if i.has .verbose then [(.text "log_level", .text "DEBUG")] else []

def settingsRecord (settings : RoutingSettings) : Log.Record :=
  ⟨.debug, .commandLine, "Loaded config " ++ settings.toValue.quoted.toOption.getD []⟩

def call (s : Surroundings) (i : Invocation) (c : Command) (args : List Text) : Outcome :=
  match Settings.load s.files (sources s i) with
  | .error e => .ofSettingsError e
  | .ok all =>
    let (early, settings) := all.routing
    let outcome : Outcome :=
      match settings with
      | .error e => .ofSettingsError e
      | .ok settings =>
        let (records, outcome) := Report.ofArguments s settings c args
        outcome.after (shown (i.has .verbose) settings.logLevel (settingsRecord settings :: records))
    outcome.after (shown false .warning early)

/-- Whether a name can be that of a command: it begins with a letter or a numeral. -/
def isWord : Text → Bool
  | [] => true
  | c :: _ => Text.isAlphanumeric c

/-- The file of assignments must not be a directory. -/
def checkAssignments (s : Surroundings) (i : Invocation) : Except UsageFault Unit :=
  match i.value? .assignments with
  | some path => if Files.isDirectory path s.files then .error (.directory path) else .ok ()
  | none => .ok ()

def early? (s : Surroundings) (i : Invocation) : Except UsageFault (Option Outcome) :=
  match i.eager? with
  | some .version => .ok (some (.printed ("biroute, version " ++ version)))
  | some _ => .ok (some (.printed (Help.text .program)))
  | none =>
    if (i.value? .assignments).any Files.isUnreadable then
      .ok (some (.refused Refusal.unreadablePath))
    else (checkAssignments s i).map fun _ => none

/-- What the program does with arguments behind a name that is none of a command. Where the name
looks like an option, the arguments are read as options of the program first. -/
def unknown (s : Surroundings) (name : Text) (args : List Text) : Except UsageFault Outcome := do
  if isWord name then .error (.unknownCommand name)
  else if args.isEmpty then return .printed (Help.text .program)
  else
    match ← early? s (← Scope.program.invocation args) with
    | some outcome => return outcome
    | none => .error (.unknownCommand name)

def ofInvocation (s : Surroundings) (i : Invocation) : Except UsageFault Outcome := do
  match ← early? s i with
  | some outcome => return outcome
  | none =>
    match i.operands with
    | [] => .error .noCommand
    | name :: args =>
      match Command.ofName? name with
      | some c => return call s i c args
      | none => unknown s name args

def sourcePaths (args : List Text) (c : Command) : List Text :=
  match (Scope.command c).invocation args with
  | .ok i => i.values .source
  | .error _ => []

def paths (args : List Text) : List Text :=
  match Scope.program.invocation args with
  | .error _ => []
  | .ok i =>
    i.values .config ++ i.values .assignments ++
      match i.operands with
      | [] => []
      | name :: rest => ((Command.ofName? name).map (sourcePaths rest)).getD []

/-- Runs the program. Without arguments it shows its help. -/
def run (s : Surroundings) (args : List Text) : Outcome :=
  if args.isEmpty then .printed (Help.text .program)
  else
    match Scope.program.invocation args >>= ofInvocation s with
    | .ok outcome => outcome
    | .error fault => .misused .program fault

end CommandLine

end RoutePattern
