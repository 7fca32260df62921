import Munch.Yaml.Tokens

namespace Munch.Yaml

/-- Anchors are numbered, and an alias holds the number of its anchor. So the tree is finite even
where an alias stands inside the node it means. -/
inductive Node
  | scalar (anchor : Option Nat) (plain : Bool) (text : String)
  | sequence (anchor : Option Nat) (items : List Node)
  | mapping (anchor : Option Nat) (entries : List (Node × Node))
  | alias (target : Nat)

namespace Node

def missing (anchor : Option Nat) : Node := .scalar anchor true ""

def anchor? : Node → Option Nat
  | .scalar a _ _ => a
  | .sequence a _ => a
  | .mapping a _ => a
  | .alias _ => none

def note (n : Node) (noted : List (Nat × Node)) : List (Nat × Node) :=
  match n.anchor? with
  | some a => (a, n) :: noted
  | none => noted

mutual

def anchored (n : Node) (noted : List (Nat × Node)) : List (Nat × Node) :=
  match n with
  | .scalar a plain text => note (.scalar a plain text) noted
  | .sequence a items => anchoredItems items (note (.sequence a items) noted)
  | .mapping a entries => anchoredEntries entries (note (.mapping a entries) noted)
  | .alias _ => noted

def anchoredItems : List Node → List (Nat × Node) → List (Nat × Node)
  | [], noted => noted
  | n :: ns, noted => anchoredItems ns (n.anchored noted)

def anchoredEntries : List (Node × Node) → List (Nat × Node) → List (Nat × Node)
  | [], noted => noted
  | (k, v) :: es, noted => anchoredEntries es (v.anchored (k.anchored noted))

def size : Node → Nat
  | .scalar _ _ _ => 1
  | .sequence _ items => sizeItems items + 2
  | .mapping _ entries => sizeEntries entries + 2
  | .alias _ => 1

def sizeItems : List Node → Nat
  | [] => 0
  | n :: ns => n.size + sizeItems ns

def sizeEntries : List (Node × Node) → Nat
  | [] => 0
  | (k, v) :: es => k.size + v.size + sizeEntries es

end

end Node

end Munch.Yaml
