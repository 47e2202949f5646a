import CMakeSense.Yaml.Cursor

/-! The tokens of a YAML file, and what can be wrong with one. -/

namespace CMakeSense.Yaml

/-- How a scalar is written. -/
inductive Style where
  | plain | quoted | block
  deriving DecidableEq, Repr

inductive TokenKind where
  | streamEnd
  | versionDirective (major minor : Nat)
  | tagDirective (handle start : Text)
  | documentStart | documentEnd
  | blockSequenceStart | blockMappingStart | blockEnd
  | flowSequenceStart | flowSequenceEnd | flowMappingStart | flowMappingEnd
  | blockEntry | flowEntry | key | value
  | alias (name : Text)
  | anchor (name : Text)
  | tag (handle suffix : Text)
  | scalar (value : Text) (style : Style)
  deriving DecidableEq, Repr

structure Token where
  kind : TokenKind
  start : Mark
  deriving DecidableEq, Repr

/-- What is wrong at a place of a file. -/
inductive Problem where
  | missingColon | tooDeep
  | misplacedEntry | misplacedKey | misplacedValue
  | noToken
  | missingDirectiveName | badDirectiveName | unknownDirective
  | missingPoint | longVersion | missingVersion
  | missingGap | missingGapOrBreak | missingCommentOrBreak
  | badName
  | missingAngle | missingExclamation | missingUri
  | badEscapedOctet | badEscapedLead | badEscapedTrail
  | zeroIndentation | tabInIndentation | tabBeforeText
  | documentInside | endInside
  | unknownEscape | missingHex | badEscapedCharacter
  | missingDocumentStart | repeatedVersion | otherVersion | repeatedHandle | unknownHandle
  | missingContent | missingHyphen | missingKey | missingCommaOrBracket | missingCommaOrBrace
  deriving DecidableEq, Repr

def Problem.message : Problem → Text
  | .missingColon => utf8 "could not find expected ':'"
  | .tooDeep => utf8 "exceeded max depth of 10000"
  | .misplacedEntry => utf8 "block sequence entries are not allowed in this context"
  | .misplacedKey => utf8 "mapping keys are not allowed in this context"
  | .misplacedValue => utf8 "mapping values are not allowed in this context"
  | .noToken => utf8 "found character that cannot start any token"
  | .missingDirectiveName => utf8 "could not find expected directive name"
  | .badDirectiveName => utf8 "found unexpected non-alphabetical character"
  | .unknownDirective => utf8 "found unknown directive name"
  | .missingPoint => utf8 "did not find expected digit or '.' character"
  | .longVersion => utf8 "found extremely long version number"
  | .missingVersion => utf8 "did not find expected version number"
  | .missingGap => utf8 "did not find expected whitespace"
  | .missingGapOrBreak => utf8 "did not find expected whitespace or line break"
  | .missingCommentOrBreak => utf8 "did not find expected comment or line break"
  | .badName => utf8 "did not find expected alphabetic or numeric character"
  | .missingAngle => utf8 "did not find the expected '>'"
  | .missingExclamation => utf8 "did not find expected '!'"
  | .missingUri => utf8 "did not find expected tag URI"
  | .badEscapedOctet => utf8 "did not find URI escaped octet"
  | .badEscapedLead => utf8 "found an incorrect leading UTF-8 octet"
  | .badEscapedTrail => utf8 "found an incorrect trailing UTF-8 octet"
  | .zeroIndentation => utf8 "found an indentation indicator equal to 0"
  | .tabInIndentation => utf8 "found a tab character where an indentation space is expected"
  | .tabBeforeText => utf8 "found a tab character that violates indentation"
  | .documentInside => utf8 "found unexpected document indicator"
  | .endInside => utf8 "found unexpected end of stream"
  | .unknownEscape => utf8 "found unknown escape character"
  | .missingHex => utf8 "did not find expected hexdecimal number"
  | .badEscapedCharacter => utf8 "found invalid Unicode character escape code"
  | .missingDocumentStart => utf8 "did not find expected <document start>"
  | .repeatedVersion => utf8 "found duplicate %YAML directive"
  | .otherVersion => utf8 "found incompatible YAML document"
  | .repeatedHandle => utf8 "found duplicate %TAG directive"
  | .unknownHandle => utf8 "found undefined tag handle"
  | .missingContent => utf8 "did not find expected node content"
  | .missingHyphen => utf8 "did not find expected '-' indicator"
  | .missingKey => utf8 "did not find expected key"
  | .missingCommaOrBracket => utf8 "did not find expected ',' or ']'"
  | .missingCommaOrBrace => utf8 "did not find expected ',' or '\x7d'"

/-- Why a file is no document. -/
inductive Error where
  | unreadable (fault : Fault)
  /-- A token is malformed: where it begins, and where the problem is. -/
  | malformed (problem : Problem) (context place : Mark)
  /-- Tokens do not fit together: where the collection around them begins, if it matters, and where
  the problem is. -/
  | misplaced (problem : Problem) (context? : Option Mark) (place : Mark)
  | unknownAnchor (name : Text)
  deriving DecidableEq, Repr

/-- The line that an error names: that of its context or else of its place. A first line is not
named, and the lines of malformed tokens alone are counted from one. -/
def Error.line? : Error → Option Nat
  | .unreadable _ | .unknownAnchor _ => none
  | .malformed _ context place =>
    if context.line ≠ 0 then some (context.line + 1)
    else if place.line ≠ 0 then some (place.line + 1)
    else none
  | .misplaced _ context? place =>
    match context? with
    | some context =>
      if context.line ≠ 0 then some context.line
      else if place.line ≠ 0 then some place.line
      else none
    | none => if place.line ≠ 0 then some place.line else none

end CMakeSense.Yaml
