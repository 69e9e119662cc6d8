import RoutePattern.Pattern.Capture
import RoutePattern.Value.Refusal

/-!
Rendering: the steps of a layout write values back into a path and a query.
-/

namespace RoutePattern

namespace Key

def value : Key → Value
  | name t => .text t
  | index n => .int n

def ofValue? : Value → Option Key
  | .text t => some (name t)
  | .int n => if n < 0 then none else some (index n.toNat)
  | .bool b => some (index (if b then 1 else 0))
  | _ => none

end Key

inductive RenderCause where
  | missing
  | severalValues
  | notAList (kind : Text)
  | noValues
deriving DecidableEq, Repr

structure RenderFault where
  cause : RenderCause
  key : Key
deriving DecidableEq, Repr

namespace RenderFault

def shownKey : Key → Text
  | .name t => Text.quoted t
  | .index n => Text.ofNat n

def message (f : RenderFault) : Text :=
  match f.cause with
  | .missing => "Missing required parameter " ++ shownKey f.key
  | .severalValues =>
    "Parameter " ++ shownKey f.key ++ " expects a single value, got a list"
  | .notAList kind =>
    "Parameter " ++ shownKey f.key ++ " expects a list of values, got " ++ kind
  | .noValues => "Parameter " ++ shownKey f.key ++ " requires at least one value"

end RenderFault

/-- Why nothing is rendered: the values do not fit, or one of them has no text. -/
inductive RenderError where
  | fault (fault : RenderFault)
  | refusal (refusal : Refusal)

/-- What is given to be rendered: values by key, unless it is a value in which nothing can be looked
up. -/
abbrev Arguments := Value

/-- What is given for a key, null where there is nothing. -/
def argument (key : Key) : Arguments → Except RenderError Value
  | .map entries => .ok ((Table.get? key.value entries).getD .null)
  | v => .error (.refusal (.lacking "get" v.qualifiedKind))

/-- The non-empty texts of the items of a list; absent items are skipped. -/
def itemTexts : List Value → Except Refusal (List Text)
  | [] => .ok []
  | .null :: rest => itemTexts rest
  | v :: rest => do
    let text ← v.textOf
    let others ← itemTexts rest
    return if text.isEmpty then others else text :: others

/-- The texts that a repeated capture writes; there is none only where it may be left out. -/
def repeatedTexts (c : Capture) (args : Arguments) : Except RenderError (List Text) := do
  match ← argument c.key args with
  | .null => if c.optional then .ok [] else .error (.fault ⟨.noValues, c.key⟩)
  | v =>
    match v.items? with
    | none => .error (.fault ⟨.notAList v.kind, c.key⟩)
    | some items =>
      let texts ← (itemTexts items).mapError .refusal
      if texts.isEmpty && !c.optional then .error (.fault ⟨.noValues, c.key⟩)
      else return texts

/-- The text that a single capture writes, without its lead; none where it is left out. -/
def singleText (c : Capture) (args : Arguments) : Except RenderError (Option Text) := do
  let absent : Except RenderError (Option Text) :=
    if c.optional then .ok none else .error (.fault ⟨.missing, c.key⟩)
  match ← argument c.key args with
  | .null => absent
  | v =>
    if v.items?.isSome then .error (.fault ⟨.severalValues, c.key⟩)
    else
      let text ← v.textOf.mapError .refusal
      if text.isEmpty then absent else return some text

def renderPart (args : Arguments) : Part → Except RenderError Text
  | .literal text _ => .ok text
  | .capture c =>
    if c.multiple then
      (repeatedTexts c args).map fun texts =>
        if texts.isEmpty then [] else c.lead ++ Text.join ['/'] texts
    else
      (singleText c args).map fun text? =>
        match text? with
        | some text => c.lead ++ text
        | none => []

def renderParts (args : Arguments) : List Part → Except RenderError Text
  | [] => .ok []
  | part :: rest => do
    let first ← renderPart args part
    let others ← renderParts args rest
    return first ++ others

/-- The pieces that one query entry writes: one for every item of a list, and else one, unless there
is nothing to write. -/
def renderEntry (args : Arguments) (key : Text) (parts : List Part) :
    Except RenderError (List Text) :=
  let joined : Except RenderError (List Text) :=
    (renderParts args parts).map fun text =>
      if text.isEmpty then [] else [key ++ '=' :: text]
  match parts with
  | [.capture c] =>
    if c.multiple then
      (repeatedTexts c args).map fun texts => texts.map fun text => key ++ '=' :: c.lead ++ text
    else joined
  | _ => joined

def renderQuery (args : Arguments) : List (Text × List Part) → Except RenderError (List Text)
  | [] => .ok []
  | (key, parts) :: rest => do
    let first ← renderEntry args key parts
    let others ← renderQuery args rest
    return first ++ others

/-- The query that steps write: that of their last query block. -/
def renderLastQuery (args : Arguments) (steps : List Step) : Except RenderError Text :=
  let blocks := steps.filterMap fun
    | .query entries => some entries
    | _ => none
  match blocks.getLast? with
  | some entries => (renderQuery args entries).map (Text.join ['&'])
  | none => .ok []

def withQuery (path query : Text) : Text :=
  if query.isEmpty then path else orRoot path ++ '?' :: query

mutual

def renderPaths (args : Arguments) : List Step → Except RenderError (List Text)
  | [] => .ok []
  | step :: rest => do
    let first ← step.render args
    let others ← renderPaths args rest
    return first ++ others

/-- The path part that a step writes; a query block writes none. What is nested and may be left out
is left out where the values do not fit it. -/
def Step.render (args : Arguments) : Step → Except RenderError (List Text)
  | .single part => (renderPart args part).map ([·])
  | .compound parts => (renderParts args parts).map ([·])
  | .query _ => .ok []
  | .nested optional steps =>
    let whole : Except RenderError Text := do
      let paths ← renderPaths args steps
      let query ← renderLastQuery args steps
      return withQuery (joinPath paths) query
    match whole with
    | .ok text => .ok [text]
    | .error (.fault f) => if optional then .ok [[]] else .error (.fault f)
    | .error e => .error e

end

def renderSteps (args : Arguments) (steps : List Step) : Except RenderError Text := do
  let paths ← renderPaths args steps
  let query ← renderLastQuery args steps
  return withQuery (joinPath paths) query

/-- What steps write as a whole route: the root where they write nothing. -/
def renderRoute (args : Arguments) (steps : List Step) : Except RenderError Text :=
  (renderSteps args steps).map orRoot

structure Renderer where
  steps : List Step
  isConstant : Bool

namespace Renderer

def constant? (r : Renderer) : Option Text :=
  if r.isConstant then (renderRoute (.map []) r.steps).toOption else none

/-- Renders what is given; something empty stands for no values at all. -/
def run (r : Renderer) (args : Arguments) : Except RenderError Text :=
  renderRoute (if args.isTruthy then args else .map []) r.steps

end Renderer

def Pattern.renderer {σ : Type} (p : Pattern σ) : Except (LayoutError σ) Renderer :=
  p.layout.steps.map (⟨·, (p.captures 0 false).isEmpty⟩)

end RoutePattern
