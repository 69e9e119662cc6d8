import RoutePattern.Document.Yaml.Tag
import RoutePattern.Document.Yaml.Token

namespace RoutePattern
namespace Document
namespace Yaml

/-- A node with its tag and where it starts. One that names a node around it stands for no value. -/
inductive Node where
  | scalar (tag : Tag) (place : Place) (text : Text)
  | list (tag : Tag) (place : Place) (items : List Node)
  | mapping (tag : Tag) (place : Place) (entries : List (Node × Node))
  | around (place : Place)

namespace Node

def tag : Node → Tag
  | scalar tag .. => tag
  | list tag .. => tag
  | mapping tag .. => tag
  | around _ => .other []

def place : Node → Place
  | scalar _ place _ => place
  | list _ place _ => place
  | mapping _ place _ => place
  | around place => place

def name : Node → Text
  | scalar .. => "scalar"
  | list .. => "sequence"
  | mapping .. => "mapping"
  | around _ => "alias"

def empty (place : Place) : Node := scalar .null place []

end Node

/-- How far a document is read: the tokens that are left, the nodes that have an anchor, and what the
handles of tags stand for. The node of an anchor is not known before its end. -/
structure Reading where
  tokens : Tokens
  anchors : Table Text (Place × Option Node)
  handles : Table Text Text

abbrev Reader := StateT Reading (Except Failure)

namespace Reader

def stop {α : Type} (f : Fault) : Reader α := fun _ => fail f

def peek : Reader Token := fun r =>
  r.tokens.peek.map fun (token, tokens) => (token, { r with tokens })

def peekKind : Reader TokenKind := do return (← peek).kind

def take : Reader Token := do
  let token ← peek
  modify fun r => { r with tokens := r.tokens.tail }
  return token

/-- What stands in front of a node: where that starts, an anchor, and a tag with its place. -/
structure Properties where
  start : Option Place
  anchor : Option Text
  tag : Option (TagName × Place)

def anchor? (begun : Option Place) : Reader (Option Place × Option Text) := do
  let token ← peek
  match token.kind with
  | .anchor name =>
    let _ ← take
    return (begun.getD token.start, some name)
  | _ => return (begun, none)

def tag? (begun : Option Place) : Reader (Option Place × Option (TagName × Place)) := do
  let token ← peek
  match token.kind with
  | .tag name =>
    let _ ← take
    return (begun.getD token.start, some (name, token.start))
  | _ => return (begun, none)

def properties : Reader Properties := do
  let (start, anchor) ← anchor? none
  let (start, tag) ← tag? start
  if anchor.isSome || tag.isNone then return ⟨start, anchor, tag⟩
  else
    let (_, anchor) ← anchor? start
    return ⟨start, anchor, tag⟩

def tagName (p : Properties) : Reader (Option Text) := do
  match p.tag with
  | none => return none
  | some (⟨none, suffix⟩, _) => return some suffix
  | some (⟨some handle, suffix⟩, place) =>
    match Table.get? handle (← get).handles with
    | some meaning => return some (meaning ++ suffix)
    | none => stop (.during .node (p.start.getD place) (.unknownHandle handle) place)

/-- The tag by its name; `usual` where there is none that says anything. -/
def tagOf (usual : Tag) (name : Option Text) : Tag :=
  match name with
  | none => usual
  | some name => if name == ['!'] then usual else .ofName name

def beginAnchor (anchor : Option Text) (place : Place) : Reader Unit := do
  match anchor with
  | none => return
  | some name =>
    match Table.get? name (← get).anchors with
    | some (first, _) => stop (.during (.firstAnchor name) first .secondAnchor place)
    | none => modify fun r => { r with anchors := Table.put name (place, none) r.anchors }

def endAnchor (anchor : Option Text) (node : Node) : Reader Node := do
  match anchor with
  | none => return node
  | some name =>
    modify fun r => { r with anchors := Table.put name (node.place, some node) r.anchors }
    return node

def aliased (name : Text) (place : Place) : Reader Node := do
  match Table.get? name (← get).anchors with
  | some (_, some node) => return node
  | some (start, none) => return .around start
  | none => stop (.plain (.unknownAlias name) place)

/-- Where a node may stand: as an item or a value of a block, as a value in front of which a list may
stand without being deeper, or between brackets. -/
inductive Position where
  | block
  | blockValue
  | flow
deriving DecidableEq, Repr

/-- Whether an item of a list that stands no deeper than its key is left out. -/
def endsFlushItem : TokenKind → Bool
  | .blockItem => true
  | .key => true
  | .value => true
  | .blockEnd => true
  | _ => false

def endsBlockPart : TokenKind → Bool
  | .key => true
  | .value => true
  | .blockEnd => true
  | _ => false

def endsFlowPart (close : TokenKind) (kind : TokenKind) : Bool :=
  kind == close || kind == .flowItem

mutual

def node : Nat → Position → Reader Node
  | 0, _ => do stop (.plain .deepNesting (← peek).start)
  | fuel + 1, position => do
    let token ← peek
    match token.kind with
    | .reference name =>
      let _ ← take
      aliased name token.start
    | _ =>
      let p ← properties
      let name ← tagName p
      let token ← peek
      let start := p.start.getD token.start
      let isBlock := position != .flow
      match token.kind, isBlock with
      | .scalar text plain, _ =>
        let _ ← take
        beginAnchor p.anchor start
        let usual := if (plain && name.isNone) || name == some ['!'] then Tag.ofWord text else .text
        endAnchor p.anchor (.scalar (tagOf usual name) start text)
      | .flowListStart, _ =>
        beginAnchor p.anchor start
        let _ ← take
        let items ← flowItems fuel token.start true
        endAnchor p.anchor (.list (tagOf .list name) start items)
      | .flowMappingStart, _ =>
        beginAnchor p.anchor start
        let _ ← take
        let entries ← flowEntries fuel token.start true
        endAnchor p.anchor (.mapping (tagOf .mapping name) start entries)
      | .blockListStart, true =>
        beginAnchor p.anchor start
        let _ ← take
        let items ← blockItems fuel token.start
        endAnchor p.anchor (.list (tagOf .list name) start items)
      | .blockMappingStart, true =>
        beginAnchor p.anchor start
        let _ ← take
        let entries ← blockEntries fuel token.start
        endAnchor p.anchor (.mapping (tagOf .mapping name) start entries)
      | kind, _ =>
        if kind == .blockItem && position == .blockValue then
          beginAnchor p.anchor start
          let items ← flushItems fuel
          endAnchor p.anchor (.list (tagOf .list name) start items)
        else if p.start.isSome then
          beginAnchor p.anchor start
          endAnchor p.anchor (.scalar (tagOf .null name) start [])
        else
          let activity := if isBlock then .blockNode else .flowNode
          stop (.during activity start (.noContent kind.name) token.start)

def nodeBehind : Nat → Position → (TokenKind → Bool) → Token → Reader Node
  | 0, _, _, mark => stop (.plain .deepNesting mark.start)
  | fuel + 1, position, isLeftOut, mark => do
    if isLeftOut (← peekKind) then return .empty mark.stop else node fuel position

def blockItems : Nat → Place → Reader (List Node)
  | 0, opened => stop (.plain .deepNesting opened)
  | fuel + 1, opened => do
    let token ← take
    match token.kind with
    | .blockItem =>
      let item ← nodeBehind fuel .block (fun kind => kind == .blockItem || kind == .blockEnd) token
      return item :: (← blockItems fuel opened)
    | .blockEnd => return []
    | kind => stop (.during .blockList opened (.noBlockEnd kind.name) token.start)

/-- The items of a list that stands no deeper than its key. -/
def flushItems : Nat → Reader (List Node)
  | 0 => do stop (.plain .deepNesting (← peek).start)
  | fuel + 1 => do
    if (← peekKind) == .blockItem then
      let item ← nodeBehind fuel .block endsFlushItem (← take)
      return item :: (← flushItems fuel)
    else return []

def valueOf : Nat → Position → (TokenKind → Bool) → Reader Node
  | 0, _, _ => do stop (.plain .deepNesting (← peek).start)
  | fuel + 1, position, isLeftOut => do
    let token ← peek
    if token.kind == .value then nodeBehind fuel position isLeftOut (← take)
    else return .empty token.start

def blockEntries : Nat → Place → Reader (List (Node × Node))
  | 0, opened => stop (.plain .deepNesting opened)
  | fuel + 1, opened => do
    let token ← peek
    match token.kind with
    | .key =>
      let key ← nodeBehind fuel .blockValue endsBlockPart (← take)
      let value ← valueOf fuel .blockValue endsBlockPart
      return (key, value) :: (← blockEntries fuel opened)
    | .blockEnd =>
      let _ ← take
      return []
    | kind => stop (.during .blockMapping opened (.noBlockEnd kind.name) token.start)

/-- The items of a list in brackets. All but the first one have a comma in front of them, and one may
stand behind the last one. A key makes a mapping of one entry. -/
def flowItems : Nat → Place → Bool → Reader (List Node)
  | 0, opened, _ => stop (.plain .deepNesting opened)
  | fuel + 1, opened, isFirst => do
    if (← peekKind) == .flowListEnd then
      let _ ← take
      return []
    else
      if !isFirst then
        let token ← peek
        if token.kind == .flowItem then
          let _ ← take
        else stop (.during .flowList opened (.noComma ']' token.kind.name) token.start)
      let token ← peek
      match token.kind with
      | .flowListEnd =>
        let _ ← take
        return []
      | .key =>
        let isLeftOut := endsFlowPart .flowListEnd
        let key ← nodeBehind fuel .flow (fun kind => isLeftOut kind || kind == .value) (← take)
        let value ← valueOf fuel .flow isLeftOut
        return .mapping .mapping token.start [(key, value)] :: (← flowItems fuel opened false)
      | _ =>
        let item ← node fuel .flow
        return item :: (← flowItems fuel opened false)

/-- The entries of a mapping in braces, with commas as in a list. A node by itself is a key. -/
def flowEntries : Nat → Place → Bool → Reader (List (Node × Node))
  | 0, opened, _ => stop (.plain .deepNesting opened)
  | fuel + 1, opened, isFirst => do
    if (← peekKind) == .flowMappingEnd then
      let _ ← take
      return []
    else
      if !isFirst then
        let token ← peek
        if token.kind == .flowItem then
          let _ ← take
        else stop (.during .flowMapping opened (.noComma '}' token.kind.name) token.start)
      match ← peekKind with
      | .flowMappingEnd =>
        let _ ← take
        return []
      | .key =>
        let isLeftOut := endsFlowPart .flowMappingEnd
        let key ← nodeBehind fuel .flow (fun kind => isLeftOut kind || kind == .value) (← take)
        let value ← valueOf fuel .flow isLeftOut
        return (key, value) :: (← flowEntries fuel opened false)
      | _ =>
        let key ← node fuel .flow
        let value := Node.empty (← peek).start
        return (key, value) :: (← flowEntries fuel opened false)

end

def usualHandles : Table Text Text := [(['!'], ['!']), (['!', '!'], Tag.family)]

/-- The directives that come next: whether a version was seen, and what handles stand for. -/
def directives : Nat → Bool → Table Text Text → Reader (Table Text Text)
  | 0, _, handles => return handles
  | fuel + 1, hasVersion, handles => do
    let token ← peek
    match token.kind with
    | .directive d =>
      let _ ← take
      match d with
      | .version major _ =>
        if hasVersion then stop (.plain .secondVersion token.start)
        else if major ≠ 1 then stop (.plain .badVersion token.start)
        else directives fuel true handles
      | .handle name meaning =>
        if Table.has name handles then stop (.plain (.secondHandle name) token.start)
        else directives fuel hasVersion (Table.put name meaning handles)
      | .other _ => directives fuel hasVersion handles
    | _ => return handles

def documentStart (fuel : Nat) : Reader Unit := do
  let handles ← directives fuel false []
  let token ← peek
  if token.kind != .documentStart then
    stop (.plain (.noDocumentStart token.kind.name) token.start)
  else
    let _ ← take
    modify fun r => { r with handles := Table.putAll usualHandles handles }

def isDirective : TokenKind → Bool
  | .directive _ => true
  | _ => false

def skipDocumentEnds : Nat → Reader Unit
  | 0 => return
  | fuel + 1 => do
    if (← peekKind) == .documentEnd then
      let _ ← take
      skipDocumentEnds fuel

/-- The first node of a document behind its mark, unless it is left out. -/
def markedRoot (fuel : Nat) : Reader Node := do
  documentStart fuel
  let token ← peek
  if isDirective token.kind ||
      [.documentStart, .documentEnd, .streamEnd].contains token.kind then
    return .empty token.start
  else node fuel .block

/-- The first node of the only document; none where there is no document. -/
def document (fuel : Nat) : Reader (Option Node) := do
  let kind ← peekKind
  if kind == .streamEnd then return none
  else
    let root ←
      if isDirective kind || kind == .documentStart then markedRoot fuel else node fuel .block
    skipDocumentEnds fuel
    let token ← peek
    if token.kind == .streamEnd then return some root
    else
      documentStart fuel
      stop (.during .document root.place .secondDocument token.start)

end Reader

/-- The first node of the document that a text holds. -/
def Node.read (text : Text) : Result (Option Node) :=
  ((Reader.document (8 * text.length + 16)).run ⟨.ofText text, [], Reader.usualHandles⟩).map (·.1)

end Yaml
end Document
end RoutePattern
