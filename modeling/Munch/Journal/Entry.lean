namespace Munch.Journal

inductive Level
  | error
  | warn
  | debug
  | trace
  deriving DecidableEq

def Level.rank : Level → Nat
  | .error => 0
  | .warn => 1
  | .debug => 2
  | .trace => 3

inductive Topic
  | channel
  | grammar
  | lexer
  deriving DecidableEq

structure Entry where
  level : Level
  topic : Topic
  message : String
  deriving DecidableEq

/-- Steps that note entries and may fail. What was noted before a failure stays. -/
abbrev Noting (ε : Type) : Type → Type := ExceptT ε (StateM (List Entry))

variable {ε α : Type}

def note (e : Entry) : Noting ε Unit := modify (· ++ [e])

def Noting.result (steps : Noting ε α) : Except ε α := (steps.run.run []).1

def Noting.entries (steps : Noting ε α) : List Entry := (steps.run.run []).2

end Munch.Journal
