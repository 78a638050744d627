/-
Places in a YAML text, and what can be wrong there.

A fault names the problem and its place, and often what was being read when it
was met and where that began. Places are written from one; the very first
place of a text is left out, and so is the place of the activity when it is
the place of the problem.
-/

set_option autoImplicit false

namespace PatternAudit.Yaml

/-! ## Marks -/

/-- A place in a text, in characters from the start, lines, and characters from the
start of the line, each counted from zero. -/
structure Mark where
  index : Nat
  line : Nat
  column : Nat
  deriving DecidableEq, Inhabited

/-- The first place of a text. -/
def Mark.start : Mark := ⟨0, 0, 0⟩

/-- Whether a place is the first one of its text. -/
def Mark.isStart (m : Mark) : Bool := m.line = 0 && m.column = 0

/-- A place, as messages write it. -/
def Mark.text (m : Mark) : String :=
  "line " ++ toString (m.line + 1) ++ " column " ++ toString (m.column + 1)

/-- The suffix that places a message. -/
def Mark.suffix (m : Mark) : String := if m.isStart then "" else " at " ++ m.text

/-! ## Faults -/

/-- What was being read when a problem was met. -/
inductive Activity where
  | nextToken
  | simpleKey
  | directive
  | versionDirective
  | tagDirective
  | tagDirectiveParts
  | anchor
  | aliasName
  | tag
  | tagParts
  | blockScalar
  | quotedScalar
  | quotedScalarParts
  | plainScalar
  | node
  | blockNode
  | flowNode
  | blockCollection
  | blockMapping
  | flowSequence
  | flowMapping

/-- An activity, as messages write it. -/
def Activity.text : Activity → String
  | nextToken => "while scanning for the next token"
  | simpleKey => "while scanning a simple key"
  | directive => "while scanning a directive"
  | versionDirective => "while scanning a %YAML directive"
  | tagDirective => "while scanning a %TAG directive"
  | tagDirectiveParts => "while parsing a %TAG directive"
  | anchor => "while scanning an anchor"
  | aliasName => "while scanning an alias"
  | tag => "while scanning a tag"
  | tagParts => "while parsing a tag"
  | blockScalar => "while scanning a block scalar"
  | quotedScalar => "while scanning a quoted scalar"
  | quotedScalarParts => "while parsing a quoted scalar"
  | plainScalar => "while scanning a plain scalar"
  | node => "while parsing a node"
  | blockNode => "while parsing a block node"
  | flowNode => "while parsing a flow node"
  | blockCollection => "while parsing a block collection"
  | blockMapping => "while parsing a block mapping"
  | flowSequence => "while parsing a flow sequence"
  | flowMapping => "while parsing a flow mapping"

/-- What is wrong with a text. -/
inductive Problem where
  | cannotStartToken
  | missingColon
  | blockEntryHere
  | keyHere
  | valueHere
  | unknownDirective
  | noDirectiveName
  | directiveNameCharacter
  | directiveEnd
  | noVersionNumber
  | longVersionNumber
  | versionSeparator
  | noTagBang
  | noBlank
  | noBlankOrBreak
  | noTagUri
  | noEscapedOctet
  | leadingOctet
  | trailingOctet
  | tagEnd
  | noAnchorName
  | zeroIndentation
  | noCommentOrBreak
  | tabInIndentation
  | tabBelowIndentation
  | documentIndicator
  | endOfStream
  | unknownEscape
  | noHexNumber
  | notAScalarValue
  | colonInFlow
  | noStreamStart
  | noDocumentStart
  | duplicateVersion
  | incompatibleVersion
  | duplicateTagDirective
  | undefinedHandle
  | noContent
  | noDash
  | noKey
  | noCommaOrBracket
  | noCommaOrBrace

/-- A problem, as messages write it. -/
def Problem.text : Problem → String
  | cannotStartToken => "found character that cannot start any token"
  | missingColon => "could not find expected ':'"
  | blockEntryHere => "block sequence entries are not allowed in this context"
  | keyHere => "mapping keys are not allowed in this context"
  | valueHere => "mapping values are not allowed in this context"
  | unknownDirective => "found unknown directive name"
  | noDirectiveName => "could not find expected directive name"
  | directiveNameCharacter => "found unexpected non-alphabetical character"
  | directiveEnd => "did not find expected comment or line break"
  | noVersionNumber => "did not find expected version number"
  | longVersionNumber => "found extremely long version number"
  | versionSeparator => "did not find expected digit or '.' character"
  | noTagBang => "did not find expected '!'"
  | noBlank => "did not find expected whitespace"
  | noBlankOrBreak => "did not find expected whitespace or line break"
  | noTagUri => "did not find expected tag URI"
  | noEscapedOctet => "did not find URI escaped octet"
  | leadingOctet => "found an incorrect leading UTF-8 octet"
  | trailingOctet => "found an incorrect trailing UTF-8 octet"
  | tagEnd => "did not find the expected '>'"
  | noAnchorName => "did not find expected alphabetic or numeric character"
  | zeroIndentation => "found an indentation indicator equal to 0"
  | noCommentOrBreak => "did not find expected comment or line break"
  | tabInIndentation => "found a tab character where an indentation space is expected"
  | tabBelowIndentation => "found a tab character that violates indentation"
  | documentIndicator => "found unexpected document indicator"
  | endOfStream => "found unexpected end of stream"
  | unknownEscape => "found unknown escape character"
  | noHexNumber => "did not find expected hexdecimal number"
  | notAScalarValue => "found invalid Unicode character escape code"
  | colonInFlow => "found unexpected ':'"
  | noStreamStart => "did not find expected <stream-start>"
  | noDocumentStart => "did not find expected <document start>"
  | duplicateVersion => "found duplicate %YAML directive"
  | incompatibleVersion => "found incompatible YAML document"
  | duplicateTagDirective => "found duplicate %TAG directive"
  | undefinedHandle => "found undefined tag handle"
  | noContent => "did not find expected node content"
  | noDash => "did not find expected '-' indicator"
  | noKey => "did not find expected key"
  | noCommaOrBracket => "did not find expected ',' or ']'"
  | noCommaOrBrace => "did not find expected ',' or '\x7d'"

/-- Why a text is no YAML text. -/
inductive Fault where
  /-- a character that no YAML text holds, at a byte offset -/
  | control (offset : Nat)
  /-- a problem at a place, and what was being read since when -/
  | at (problem : Problem) (mark : Mark) (during : Option (Activity × Mark))
  /-- an alias whose anchor was not seen before -/
  | unknownAnchor (mark : Mark)

/-- The message of a fault. -/
def Fault.message : Fault → String
  | control offset =>
    "control characters are not allowed" ++
      (if offset = 0 then "" else " at position " ++ toString offset)
  | unknownAnchor mark => "unknown anchor" ++ mark.suffix
  | .at problem mark during =>
    problem.text ++ mark.suffix ++
      match during with
      | none => ""
      | some (activity, since) =>
        ", " ++ activity.text ++
          (if since.isStart || (since.line = mark.line && since.column = mark.column) then ""
          else " at " ++ since.text)

end PatternAudit.Yaml
