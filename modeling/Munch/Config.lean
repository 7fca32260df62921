import Munch.Files
import Munch.Grammar
import Munch.Yaml.Fields

namespace Munch

structure NamedLiteral where
  name : String
  literal : String
  deriving DecidableEq

structure Config where
  alternatives : List NamedLiteral
  deriving DecidableEq

namespace Config

def standard : Config := ⟨[⟨"ab", "ab"⟩, ⟨"abcd", "abcd"⟩]⟩

/-- One character in the ranges `first`, and then any number of characters in the ranges `rest`. -/
structure Pattern where
  first : List (Char × Char)
  rest : List (Char × Char)

def inRanges (ranges : List (Char × Char)) (c : Char) : Bool :=
  ranges.any fun (low, high) => low ≤ c && c ≤ high

def Pattern.accepts (p : Pattern) (s : String) : Bool :=
  match s.toList with
  | [] => false
  | c :: cs => inRanges p.first c && cs.all (inRanges p.rest)

/-- The expression `^[A-Za-z_][A-Za-z0-9_-]*$`. -/
def namePattern : Pattern where
  first := [('A', 'Z'), ('a', 'z'), ('_', '_')]
  rest := [('A', 'Z'), ('a', 'z'), ('0', '9'), ('_', '_'), ('-', '-')]

def isName (s : String) : Bool := namePattern.accepts s

def checkNames (seen : List String) : List String → Except GrammarError Unit
  | [] => .ok ()
  | name :: names =>
    if !isName name then .error (.invalidName name)
    else if seen.contains name then .error (.duplicateName name)
    else checkNames (name :: seen) names

def check (c : Config) : Except GrammarError Unit := checkNames [] (c.alternatives.map (·.name))

def decode : Yaml.Decode Config := do
  let root ← Yaml.Decode.entries (← read).root
  let items ← Yaml.Decode.items (← Yaml.Decode.field "alternatives" root)
  let alternatives ← items.mapM fun item => do
    let fields ← Yaml.Decode.entries item
    let name ← Yaml.Decode.text (← Yaml.Decode.field "name" fields)
    let literal ← Yaml.Decode.text (← Yaml.Decode.field "literal" fields)
    return ⟨name, literal⟩
  return ⟨alternatives⟩

def parse (text : String) : Except Yaml.Fault Config := do
  let d ← Yaml.Document.ofText text
  d.decode decode

def ofYaml (text : String) : Except GrammarError Config :=
  match parse text with
  | .error fault => .error (.yaml fault.message)
  | .ok c => do
    c.check
    return c

def load (find : String → Except IoError Place) (path : String) : Except GrammarError Config :=
  match (find path).bind Place.text with
  | .error e => .error (.io (path ++ ": " ++ e.message))
  | .ok text => ofYaml text

def alternativeList (c : Config) : List (Alternative String) :=
  c.alternatives.map fun a => ⟨a.name, a.literal.toList⟩

def toGrammar (c : Config) : Except GrammarError (Grammar String) :=
  Grammar.ofList c.alternativeList

end Config

end Munch
