namespace Munch.Cli

inductive Format
  | text
  | json
  | summary
  deriving DecidableEq

def Format.ofName? : String → Option Format
  | "text" => some .text
  | "json" => some .json
  | "summary" => some .summary
  | _ => none

inductive Command
  | version
  | help
  | parse (path : String) (grammar : Option String) (format : Format)
  | generate (length : Nat) (seed : UInt64)
  | bench (length : Nat) (seed : UInt64) (grammar : Option String)
  | alternatives (grammar : Option String)
  deriving DecidableEq

def number? (s : String) : Option UInt64 :=
  let digits := match s.toList with
    | '+' :: cs => cs
    | cs => cs
  if digits.isEmpty || !digits.all Char.isDigit then none
  else
    let n := digits.foldl (fun n c => n * 10 + (c.toNat - '0'.toNat)) 0
    if n < UInt64.size then some (.ofNat n) else none

inductive Key
  | format
  | grammar
  | length
  | seed
  deriving DecidableEq

def Key.name : Key → String
  | .format => "format"
  | .grammar => "grammar"
  | .length => "length"
  | .seed => "seed"

def Key.letter : Key → Char
  | .format => 'f'
  | .grammar => 'g'
  | .length => 'n'
  | .seed => 's'

structure Usage where
  keys : List Key
  takesPath : Bool

structure Given where
  path : Option String := none
  format : Option Format := none
  grammar : Option String := none
  length : Option UInt64 := none
  seed : Option UInt64 := none

inductive Request
  | help
  | given (g : Given)

namespace Usage

def setPath (u : Usage) (path : String) (g : Given) : Option Given :=
  if u.takesPath && g.path.isNone then some { g with path := some path } else none

def once {α : Type} (old new : Option α) : Option (Option α) :=
  if old.isSome then none else new.map some

def setValue (key : Key) (value : String) (g : Given) : Option Given := do
  match key with
  | .format => return { g with format := ← once g.format (Format.ofName? value) }
  | .grammar => return { g with grammar := ← once g.grammar (some value) }
  | .length => return { g with length := ← once g.length (number? value) }
  | .seed => return { g with seed := ← once g.seed (number? value) }

def isValue (s : String) : Bool := s = "-" || s.toList.head? ≠ some '-'

inductive Shape
  | plain
  | separator
  | help
  /-- An option with its value attached, or with the next argument as its value. -/
  | option (key : Key) (value : Option String)
  | unknown

def shape (u : Usage) (s : String) : Shape :=
  match s.toList with
  | ['-'] => .plain
  | ['-', '-'] => .separator
  | '-' :: '-' :: cs =>
    let name := String.ofList (cs.takeWhile (· ≠ '='))
    match u.keys.find? (·.name = name), cs.dropWhile (· ≠ '=') with
    | some key, [] => .option key none
    | some key, _ :: value => .option key (some (.ofList value))
    | none, [] => if name = "help" then .help else .unknown
    | none, _ => .unknown
  | '-' :: c :: cs =>
    match u.keys.find? (·.letter = c), cs with
    | some key, [] => .option key none
    | some key, '=' :: value => .option key (some (.ofList value))
    | some key, value => .option key (some (.ofList value))
    | none, _ => if c = 'h' then .help else .unknown
  | _ => .plain

def read (u : Usage) (g : Given) : List String → Option Request
  | [] => some (.given g)
  | s :: rest =>
    match u.shape s with
    | .plain => do u.read (← u.setPath s g) rest
    | .separator => return .given (← rest.foldlM (fun g s => u.setPath s g) g)
    | .help => some .help
    | .option key (some value) => do u.read (← setValue key value g) rest
    | .option key none =>
      match rest with
      | value :: rest => if isValue value then do u.read (← setValue key value g) rest else none
      | [] => none
    | .unknown => none

end Usage

namespace Command

def standardSeed : UInt64 := 13013

def read (u : Usage) (args : List String) (make : Given → Option Command) : Option Command := do
  match ← u.read {} args with
  | .help => return .help
  | .given g => make g

def topics : List String := ["parse", "generate", "bench", "alternatives", "help"]

def ofArgs : List String → Option Command
  | "parse" :: args => read ⟨[.grammar, .format], true⟩ args fun g =>
    g.path.map fun path => .parse path g.grammar (g.format.getD .text)
  | "generate" :: args => read ⟨[.length, .seed], false⟩ args fun g =>
    some (.generate (g.length.getD 1000).toNat (g.seed.getD standardSeed))
  | "bench" :: args => read ⟨[.length, .seed, .grammar], false⟩ args fun g =>
    some (.bench (g.length.getD 10000000).toNat (g.seed.getD standardSeed) g.grammar)
  | "alternatives" :: args => read ⟨[.grammar], false⟩ args fun g =>
    some (.alternatives g.grammar)
  | ["help"] => some .help
  | ["help", topic] => if topics.contains topic then some .help else none
  | s :: _ =>
    match s.toList with
    | ['-', '-', 'v', 'e', 'r', 's', 'i', 'o', 'n'] => some .version
    | ['-', '-', 'h', 'e', 'l', 'p'] => some .help
    | '-' :: 'V' :: _ => some .version
    | '-' :: 'h' :: _ => some .help
    | _ => none
  | [] => none

end Command

end Munch.Cli
