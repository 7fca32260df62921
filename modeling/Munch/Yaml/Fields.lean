import Munch.Yaml.Document

namespace Munch.Yaml

abbrev Decode := ReaderT Document (StateT Nat (Except Fault))

namespace Decode

def fail {α : Type} (f : Fault) : Decode α := fun _ _ => .error f

def follow : Node → Decode Node
  | .alias target => do
    let d ← read
    modify (· + 1)
    if d.limit < (← get) then fail .tooManyAliases
    else
      match d.anchored.lookup target with
      | some n => return n
      | none => fail .unexpectedToken
  | n => return n

def text (n : Node) : Decode String := do
  match ← follow n with
  | .scalar _ _ text => return text
  | _ => fail .notAScalar

/-- The items of a sequence. An empty plain scalar has none. -/
def items (n : Node) : Decode (List Node) := do
  match ← follow n with
  | .sequence _ items => return items
  | .scalar _ true "" => return []
  | _ => fail .notASequence

def entries (n : Node) : Decode (List (String × Node)) := do
  match ← follow n with
  | .mapping _ entries => entries.mapM fun (k, v) => return (← text k, v)
  | _ => fail .notAMapping

def field (name : String) (entries : List (String × Node)) : Decode Node :=
  match entries.filter (·.1 = name) with
  | [] => fail (.missingField name)
  | [(_, n)] => return n
  | _ => fail (.repeatedField name)

end Decode

def Document.decode {α : Type} (d : Document) (x : Decode α) : Except Fault α := do
  let (a, _) ← (x.run d).run 0
  return a

end Munch.Yaml
