namespace Munch

inductive IoKind
  | brokenPipe
  | connectionReset
  | fileNameTooLong
  | interrupted
  | invalidData
  | invalidInput
  | isADirectory
  | notADirectory
  | notFound
  | other
  | permissionDenied
  | timedOut
  | unexpectedEnd
  | wouldBlock
  deriving DecidableEq

structure IoError where
  kind : IoKind
  message : String
  deriving DecidableEq

inductive StreamError
  | underflow
  | closed
  | failed (cause : IoError)
  deriving DecidableEq

def StreamError.message : StreamError → String
  | .underflow => "pushback underflow: no read unit left to unread"
  | .closed => "stream is closed"
  | .failed cause => "upstream source failed: " ++ cause.message

def StreamError.cause? : StreamError → Option IoError
  | .failed cause => some cause
  | _ => none

/-- Why a grammar was refused. An alternative with an empty literal is named by the quoted form of
its identity, a configuration's alternatives by their names. -/
inductive GrammarError
  | empty
  | emptyAlternative (quoted : String)
  | invalidName (name : String)
  | duplicateName (name : String)
  | yaml (detail : String)
  | io (detail : String)
  deriving DecidableEq

def GrammarError.message : GrammarError → String
  | .empty => "grammar has no alternatives"
  | .emptyAlternative quoted => "alternative " ++ quoted ++ " has an empty literal"
  | .invalidName name => "invalid alternative name '" ++ name ++ "'"
  | .duplicateName name => "alternative name '" ++ name ++ "' is declared twice"
  | .yaml detail => "invalid grammar YAML: " ++ detail
  | .io detail => "failed to read grammar: " ++ detail

end Munch
