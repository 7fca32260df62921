namespace Munch.Yaml

inductive Fault
  | badCharacter
  | badEscape
  | badIndentation
  | badBlockHeader
  | badAnchor
  | badTag
  | badDirective
  | unclosedQuote
  | unfinishedKey
  | unexpectedCharacter (c : Char)
  | unexpectedToken
  | unknownTagHandle (handle : String)
  | unknownAnchor (name : String)
  | noDocument
  | severalDocuments
  | tooManyAliases
  | notAMapping
  | notASequence
  | notAScalar
  | missingField (name : String)
  | repeatedField (name : String)
  deriving DecidableEq

def Fault.message : Fault → String
  | .badCharacter => "control characters are not allowed"
  | .badEscape => "unknown or incomplete escape in a quoted scalar"
  | .badIndentation => "a tab stands where indentation is expected"
  | .badBlockHeader => "malformed block scalar header"
  | .badAnchor => "malformed anchor or alias"
  | .badTag => "malformed tag"
  | .badDirective => "malformed or unknown directive"
  | .unclosedQuote => "a quoted scalar is not closed"
  | .unfinishedKey => "could not find the colon after a key"
  | .unexpectedCharacter c => "no token starts with '" ++ c.toString ++ "' here"
  | .unexpectedToken => "a token is out of place"
  | .unknownTagHandle handle => "undefined tag handle " ++ handle
  | .unknownAnchor name => "unknown anchor " ++ name
  | .noDocument => "the stream holds no document"
  | .severalDocuments => "the stream holds more than one document"
  | .tooManyAliases => "too many aliases are followed"
  | .notAMapping => "a mapping is expected"
  | .notASequence => "a sequence is expected"
  | .notAScalar => "a scalar is expected"
  | .missingField name => "missing field " ++ name
  | .repeatedField name => "repeated field " ++ name

end Munch.Yaml
