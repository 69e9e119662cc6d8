import RoutePattern.Diagnostic
import RoutePattern.Fault
import RoutePattern.Log
import RoutePattern.Matcher
import RoutePattern.Schema.Listing
import RoutePattern.Specificity

/-!
Routes: patterns with schemas that match and decode targets, and encode and render values.
-/

namespace RoutePattern

/-- A pattern, and whether a match has to take the whole path. -/
structure Route where
  pattern : Pattern Schema
  atEnd : Bool

inductive RouteError where
  | unmatchable (fault : LayoutFault)
  | unrenderable (fault : LayoutFault)
  | interpolation (fault : RenderFault)
  | refusal (refusal : Refusal)

namespace Route

def parse (source : Text) (atEnd : Bool) : Except SyntaxFault Route :=
  (Pattern.ofText source).map (⟨·, atEnd⟩)

def literal (text : Text) (atEnd : Bool) : Route :=
  ⟨Pattern.joinSegments ((splitPath text).map Pattern.literal), atEnd⟩

def param (name : Text) (atEnd : Bool) : Route := ⟨.param name, atEnd⟩

def paramWith (name : Text) (codec : Codec) (atEnd : Bool) : Route :=
  ⟨.withSchema (.param name) (.struct codec.name [(.text name, codec)]), atEnd⟩

/-- The codecs of kinds of captures that are not called as the kinds are. -/
def codecNames : Table Text Text :=
  [("string", "str"), ("number", "float"), ("integer", "int"), ("boolean", "bool")]

def typedParam (kind name : Text) (atEnd : Bool) : Except Refusal Route :=
  (Registry.standard.find ((Table.get? kind codecNames).getD kind)).map (paramWith name · atEnd)

def unnamed : Route := ⟨.unnamed, false⟩

def separator : Route := ⟨.root, false⟩

def home : Route := ⟨.root, true⟩

def query (entries : Table Text (Pattern Schema)) (atEnd : Bool) : Route :=
  ⟨.queryParams .root entries, atEnd⟩

/-- Whether a pattern only refines what stands before it, so that it does not end the path. -/
def isRefinement : Pattern Schema → Bool
  | .withSchema .. => true
  | .queryParams .. => true
  | .queryParam .. => true
  | _ => false

/-- One route after another. The later one decides whether the path has to end, unless it only
refines the earlier one. -/
def append (r s : Route) : Route :=
  ⟨r.pattern.append s.pattern, if isRefinement s.pattern then r.atEnd else s.atEnd⟩

def appendAll (r : Route) (others : List Route) : Route := others.foldl append r

def modified (m : Modifier) (r : Route) : Route := ⟨.modified m r.pattern, r.atEnd⟩

def prefixed (lead : Text) (r : Route) : Route := ⟨.prefixed lead r.pattern, r.atEnd⟩

def withSchema (s : Schema) (r : Route) : Route := ⟨.withSchema r.pattern s, r.atEnd⟩

def schema (r : Route) : Schema := r.pattern.schema

def transform (conversion : Conversion) (r : Route) : Route :=
  r.withSchema (.transform "Transform" r.schema conversion)

def addTag (tag key : Text) (r : Route) : Route := r.withSchema (r.schema.tagged tag key)

def withEnd (atEnd : Bool) (r : Route) : Route := ⟨r.pattern, atEnd⟩

def path? (r : Route) : Except Refusal Text := r.pattern.path?

def same (r s : Route) : Bool := r.pattern.same s.pattern && r.atEnd == s.atEnd

def shown (r : Route) : Except Refusal Text :=
  r.path?.map fun path =>
    "Route(" ++ Text.quoted path ++ ", end=" ++ (if r.atEnd then "True" else "False") ++ ")"

def shownMatcher (r : Route) : Except Refusal Text :=
  r.path?.map fun path =>
    "CompiledMatcher(" ++ Text.quoted path ++ ", end=" ++ (if r.atEnd then "True" else "False") ++
      ")"

def toValue (r : Route) : Except Refusal Value :=
  r.path?.map fun path =>
    .map [(.text "path", .text path), (.text "end", .bool r.atEnd),
      (.text "ast", r.pattern.toValue)]

def layout (r : Route) : Layout Schema := r.pattern.layout

/-- The error of a route whose pattern has no layout; `wrap` says what the layout was for. -/
def layoutError (wrap : LayoutFault → RouteError) : LayoutError Schema → RouteError
  | .fault f => wrap f
  | .unwritable stray => .refusal stray.strayRefusal

def matcher (r : Route) : Except RouteError Matcher :=
  (r.pattern.matcher r.atEnd).mapError (layoutError .unmatchable)

def renderer (r : Route) : Except RouteError Renderer :=
  r.pattern.renderer.mapError (layoutError .unrenderable)

/-- The warning that a repetition leaves nothing for the segments behind it. -/
def repetitionRecord (w : RepetitionWarning Schema) : Log.Record :=
  ⟨.warning, .compiler,
    "Repetition " ++ Text.quoted w.repetition.path ++ " in " ++ Text.quoted w.whole.path ++
      " is not the last segment; it consumes every remaining segment and later segments " ++
      "can never match"⟩

def matcherRecords (r : Route) : List Log.Record :=
  r.layout.toldWarnings.map repetitionRecord ++
    match r.layout.toldSteps with
    | .error _ => []
    | .ok _ =>
      [⟨.debug, .compiler,
        "Compiled matcher for " ++ Text.quoted r.pattern.path ++ " (end=" ++
          (if r.atEnd then "True" else "False") ++ ")"⟩]

/-- What is noted when the matcher of a route is asked for, and whether the matcher is made then. It
is made once; where that fails it is tried again the next time. -/
def askMatcher (made : Bool) (r : Route) : List Log.Record × Bool :=
  if made then ([], true) else (r.matcherRecords, r.layout.toldSteps.toOption.isSome)

def rendererRecords (r : Route) : List Log.Record :=
  match r.renderer with
  | .error _ => []
  | .ok renderer =>
    [⟨.debug, .compiler,
      match renderer.constant? with
      | some text => "Compiled constant interpolator " ++ Text.quoted text
      | none => "Compiled interpolator for " ++ Text.quoted r.pattern.path⟩]

def schemaRecords (r : Route) : List Log.Record :=
  let items := r.pattern.schemaItems 0 false false
  let keys := (items.flatMap SchemaItem.captures).map fun c => RenderFault.shownKey c.key
  [⟨.debug, .schema,
    "Derived route schema: " ++ Text.ofNat items.length ++ " parts, keys " ++
      Value.bracketed "[" "]" keys⟩]

def paramEntries (params : Params) : Table Value Value :=
  params.map fun (key, captured) =>
    (key.value,
      match captured with
      | .one text => .text text
      | .many texts => .list (texts.map .text))

def accept (target : Text) (r : Route) : Except RouteError (Option Params) :=
  r.matcher.map fun m =>
    let t := Target.ofText target
    m.accept t.segments t.query

def render (args : Arguments) (r : Route) : Except RouteError Text := do
  let renderer ← r.renderer
  (renderer.run args).mapError fun
    | .fault f => .interpolation f
    | .refusal refusal => .refusal refusal

def decode (target : Text) (r : Route) : Except RouteError (Except RoutingFault Value) := do
  match ← r.accept target with
  | none => return .error (.notMatched (some (← r.path?.mapError .refusal)) target)
  | some params =>
    match r.schema.decode (.map (paramEntries params)) with
    | .ok v => return .ok v
    | .error (.refusal refusal) => .error (.refusal refusal)
    | .error (.issues issues) =>
      let path ← r.path?.mapError .refusal
      return .error (← (RoutingFault.decodeFailed (some path) (issues.map .issue)).mapError .refusal)

def decodeRecords (target : Text) (r : Route) : List Log.Record :=
  let shown := Text.quoted target
  let path := Text.quoted r.pattern.path
  match r.accept target with
  | .error _ => []
  | .ok none => [⟨.debug, .route, shown ++ " did not match " ++ path⟩]
  | .ok (some params) =>
    r.schemaRecords ++
      match r.schema.decode (.map (paramEntries params)) with
      | .error (.issues issues) =>
        let text := (Fault.ofIssues issues Fault.schemaMessage []).text
        [⟨.debug, .route, "Decoding " ++ shown ++ " against " ++ path ++ " failed: " ++ text⟩]
      | _ => []

def encodeFault (issues : List Issue) (r : Route) : Except RouteError RoutingFault := do
  let path ← r.path?.mapError .refusal
  (RoutingFault.encodeFailed (some path) (issues.map .issue)).mapError .refusal

def encode (v : Value) (r : Route) : Except RouteError (Except RoutingFault Text) :=
  match r.schema.encode v with
  | .error (.refusal refusal) => .error (.refusal refusal)
  | .error (.issues issues) => (r.encodeFault issues).map .error
  | .ok params =>
    match r.render params with
    | .ok text => .ok (.ok text)
    | .error (.interpolation f) =>
      (r.encodeFault [⟨.invalid, [f.key.value], f.message⟩]).map .error
    | .error e => .error e

end Route

end RoutePattern
