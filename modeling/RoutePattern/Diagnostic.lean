import RoutePattern.Pattern.Capture
import RoutePattern.Pattern.Reader
import RoutePattern.Renderer

namespace RoutePattern

/-- A stretch of a pattern, with the line and column where it starts. -/
structure Span where
  start : Int
  stop : Int
  line : Int
  column : Int
deriving DecidableEq, Repr

namespace Span

def text (s : Span) : Text :=
  "Line " ++ Text.ofInt s.line ++ ":" ++ Text.ofInt s.column ++ " (pos " ++ Text.ofInt s.start ++
    "-" ++ Text.ofInt s.stop ++ ")"

end Span

inductive DiagnosticKind where
  | general
  | malformedPattern
  | unusablePattern
  | interpolation
deriving DecidableEq, Repr

namespace DiagnosticKind

def title : DiagnosticKind → Text
  | general => "PatternDiagnostic"
  | malformedPattern => "PatternSyntaxError"
  | unusablePattern => "PatternSemanticError"
  | interpolation => "InterpolationError"

/-- The kind of a title; other titles belong to general diagnostics. -/
def ofTitle (title : Text) : DiagnosticKind :=
  ([malformedPattern, unusablePattern, interpolation].find? fun k => k.title == title).getD general

end DiagnosticKind

structure Diagnostic where
  kind : DiagnosticKind
  message : Text
  span : Option Span
  file : Option Text
  suggestions : List Text
  key : Option Value

namespace Diagnostic

def ofSyntax (file : Option Text) (f : SyntaxFault) : Diagnostic :=
  ⟨.malformedPattern, f.cause.message, some ⟨f.start, f.stop, 1, f.start + 1⟩, file,
    f.cause.suggestions, none⟩

def ofLayout (f : LayoutFault) : Diagnostic :=
  ⟨.unusablePattern, f.message, none, none, f.suggestions, none⟩

/-- The diagnostic of a pattern that cannot be rendered; it makes no suggestions. -/
def ofRenderLayout (f : LayoutFault) : Diagnostic :=
  ⟨.unusablePattern, f.message, none, none, [], none⟩

def ofRender (f : RenderFault) : Diagnostic :=
  ⟨.interpolation, f.message, none, none, [], some f.key.value⟩

/-- Where the fault is: in a named file by line and column, and else by its span. -/
def placeLines (d : Diagnostic) : List Text :=
  match d.span with
  | none => []
  | some span =>
    match d.file with
    | some (c :: file) =>
      ["  --> " ++ c :: file ++ ":" ++ Text.ofInt span.line ++ ":" ++ Text.ofInt span.column]
    | _ => ["  --> " ++ span.text]

def suggestionLines (d : Diagnostic) : List Text :=
  if d.suggestions.isEmpty then []
  else
    "\nSuggestions:" ::
      d.suggestions.zipIdx.map fun (s, i) => "  " ++ Text.ofNat (i + 1) ++ ") " ++ s

def keyLines (d : Diagnostic) : Except Refusal (List Text) :=
  match d.kind, d.key with
  | .interpolation, some .null => .ok []
  | .interpolation, some key => key.quotedOf.map fun text => ["  parameter: " ++ text]
  | _, _ => .ok []

def format (d : Diagnostic) : Except Refusal Text :=
  d.keyLines.map fun keys =>
    Text.join ['\n'] ((d.kind.title ++ ": " ++ d.message) :: d.placeLines ++ d.suggestionLines ++ keys)

end Diagnostic

end RoutePattern
