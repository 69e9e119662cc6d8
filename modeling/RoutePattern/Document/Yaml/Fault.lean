import RoutePattern.Document.Yaml.Source
import RoutePattern.Value.Refusal

/-!
Why a text is no YAML document: what was wrong, where, and what was going on there.
-/

namespace RoutePattern
namespace Document
namespace Yaml

inductive Activity where
  | directive
  | directiveUri
  | reference
  | anchor
  | tag
  | tagUri
  | blockText
  | quoted
  | doubleQuoted
  | token
  | key
  | node
  | blockNode
  | flowNode
  | blockList
  | blockMapping
  | flowList
  | flowMapping
  | mapping
  | orderedMapping
  | pairs
  | firstAnchor (name : Text)
  | document
deriving DecidableEq, Repr

namespace Activity

def text : Activity → Text
  | directive => "while scanning a directive"
  | directiveUri => "while parsing a directive"
  | reference => "while scanning an alias"
  | anchor => "while scanning an anchor"
  | tag => "while scanning a tag"
  | tagUri => "while parsing a tag"
  | blockText => "while scanning a block scalar"
  | quoted => "while scanning a quoted scalar"
  | doubleQuoted => "while scanning a double-quoted scalar"
  | token => "while scanning for the next token"
  | key => "while scanning a simple key"
  | node => "while parsing a node"
  | blockNode => "while parsing a block node"
  | flowNode => "while parsing a flow node"
  | blockList => "while parsing a block collection"
  | blockMapping => "while parsing a block mapping"
  | flowList => "while parsing a flow sequence"
  | flowMapping => "while parsing a flow mapping"
  | mapping => "while constructing a mapping"
  | orderedMapping => "while constructing an ordered map"
  | pairs => "while constructing pairs"
  | firstAnchor name => "found duplicate anchor " ++ Text.quoted name ++ "; first occurrence"
  | document => "expected a single document in the stream"

end Activity

inductive Wanted where
  | nameChar
  | digit
  | digitOrPoint
  | digitOrSpace
  | space
  | lineEnd
  | indicator
  | exclamation
  | closingAngle
  | uri
  | uriEscape
  | hexDigits (count : Nat)
deriving DecidableEq, Repr

namespace Wanted

def text : Wanted → Text
  | nameChar => "alphabetic or numeric character"
  | digit => "a digit"
  | digitOrPoint => "a digit or '.'"
  | digitOrSpace => "a digit or ' '"
  | space => "' '"
  | lineEnd => "a comment or a line break"
  | indicator => "chomping or indentation indicators"
  | exclamation => "'!'"
  | closingAngle => "'>'"
  | uri => "URI"
  | uriEscape => "URI escape sequence of 2 hexadecimal numbers"
  | hexDigits count => "escape sequence of " ++ Text.ofNat count ++ " hexadecimal numbers"

end Wanted

inductive Problem where
  | badStart (c : Char)
  | expected (wanted : Wanted) (found : Option Char)
  | noColon
  | misplacedItem
  | misplacedKey
  | misplacedValue
  | zeroIndent
  | badEscape (found : Option Char)
  | badBytes
  | unclosed
  | separator
  | noDocumentStart (found : Text)
  | secondVersion
  | badVersion
  | secondHandle (handle : Text)
  | unknownHandle (handle : Text)
  | noContent (found : Text)
  | noBlockEnd (found : Text)
  | noComma (closing : Char) (found : Text)
  | unknownAlias (name : Text)
  | secondAnchor
  | secondDocument
  | deepNesting
  | recursive
  | wrongNode (wanted found : Text)
  | wrongCount (found : Nat)
  | unhashable
  | badMerge (wanted found : Text)
  | unknownTag (tag : Text)
  | noAscii (detail : Text)
  | badBase64 (detail : Text)
deriving DecidableEq, Repr

namespace Problem

/-- A character between quotes, the end of the text as a null character. -/
def shown (c : Option Char) : Text := Text.quoted [c.getD '\x00']

def text : Problem → Text
  | badStart c => "found character " ++ shown (some c) ++ " that cannot start any token"
  | expected wanted found => "expected " ++ wanted.text ++ ", but found " ++ shown found
  | noColon => "could not find expected ':'"
  | misplacedItem => "sequence entries are not allowed here"
  | misplacedKey => "mapping keys are not allowed here"
  | misplacedValue => "mapping values are not allowed here"
  | zeroIndent => "expected indentation indicator in the range 1-9, but found 0"
  | badEscape found => "found unknown escape character " ++ shown found
  | badBytes => "invalid bytes"
  | unclosed => "found unexpected end of stream"
  | separator => "found unexpected document separator"
  | noDocumentStart found => "expected '<document start>', but found " ++ Text.quoted found
  | secondVersion => "found duplicate YAML directive"
  | badVersion => "found incompatible YAML document (version 1.* is required)"
  | secondHandle handle => "duplicate tag handle " ++ Text.quoted handle
  | unknownHandle handle => "found undefined tag handle " ++ Text.quoted handle
  | noContent found => "expected the node content, but found " ++ Text.quoted found
  | noBlockEnd found => "expected <block end>, but found " ++ Text.quoted found
  | noComma closing found =>
    "expected ',' or '" ++ closing :: ("', but got " ++ Text.quoted found)
  | unknownAlias name => "found undefined alias " ++ Text.quoted name
  | secondAnchor => "second occurrence"
  | secondDocument => "but found another document"
  | deepNesting => "the nodes are nested too deeply"
  | recursive => "found unconstructable recursive node"
  | wrongNode wanted found => "expected " ++ wanted ++ ", but found " ++ found
  | wrongCount found =>
    "expected a single mapping item, but found " ++ Text.ofNat found ++ " items"
  | unhashable => "found unhashable key"
  | badMerge wanted found => "expected " ++ wanted ++ " for merging, but found " ++ found
  | unknownTag tag => "could not determine a constructor for the tag " ++ Text.quoted tag
  | noAscii detail => "failed to convert base64 data into ascii: " ++ detail
  | badBase64 detail => "failed to decode base64 data: " ++ detail

end Problem

/-- A problem at a place, with what was going on and where that had begun, or a character that no
document may hold. -/
inductive Fault where
  | at (context : Option (Activity × Option Place)) (problem : Problem) (place : Place)
  | unprintable (c : Char) (index : Nat)
deriving DecidableEq, Repr

namespace Fault

/-- A problem that came up while something that had begun at a place was going on. -/
def during (activity : Activity) (begun : Place) (problem : Problem) (place : Place) : Fault :=
  .at (some (activity, some begun)) problem place

def plain (problem : Problem) (place : Place) : Fault := .at none problem place

/-- What is said of a fault in a file. Where something began is left out if it is where the problem
is. -/
def describe (file : Text) : Fault → Text
  | .at context problem place =>
    let begun : List Text :=
      match context with
      | none => []
      | some (activity, none) => [activity.text]
      | some (activity, some begun) =>
        if begun.line = place.line ∧ begun.column = place.column then [activity.text]
        else [activity.text, begun.describe file]
    Text.join "\n" (begun ++ [problem.text, place.describe file])
  | .unprintable c index =>
    "unacceptable character #x" ++ Text.hex 4 c.toNat ++ ": special characters are not allowed\n" ++
      "  in \"" ++ file ++ "\", position " ++ Text.ofNat index

end Fault

/-- Why a document is not read: it is faulty, or something in it is refused. -/
inductive Failure where
  | fault (fault : Fault)
  | refusal (refusal : Refusal)
deriving DecidableEq, Repr

abbrev Result (α : Type) := Except Failure α

def fail {α : Type} (f : Fault) : Result α := .error (.fault f)

end Yaml
end Document
end RoutePattern
