import Munch.Yaml.Node

namespace Munch.Yaml

structure Reading where
  tokens : List Token
  anchors : List (String × Nat) := []
  names : Nat := 0
  handles : List String := []

abbrev Read := StateT Reading (Except Fault)

namespace Read

def fail {α : Type} (f : Fault) : Read α := fun _ => .error f

def peek : Read (Option Token) := return (← get).tokens.head?

def advance : Read Unit := modify fun r => { r with tokens := r.tokens.tail }

def skip (t : Token) : Read Bool := do
  if (← peek) = some t then
    advance
    return true
  else return false

def separator (first : Bool) : Read Bool := if first then return true else skip .comma

def isAny (ts : List Token) : Read Bool := return (← peek).any ts.contains

/-- Numbers an anchor. A name that is used again gets a number of its own, which the next new name
shares: numbers count the names. -/
def declare (name : String) : Read Nat := fun r =>
  let names := if (r.anchors.lookup name).isSome then r.names else r.names + 1
  .ok (r.names, { r with anchors := (name, r.names) :: r.anchors, names })

def anchor : Read (Option Nat) := do
  match ← peek with
  | some (.anchor name) =>
    advance
    return some (← declare name)
  | _ => return none

def tag : Read Bool := do
  match ← peek with
  | some (.tag handle) =>
    advance
    if ["", "!", "!!"].contains handle || (← get).handles.contains handle then return true
    else fail (.unknownTagHandle handle)
  | _ => return false

/-- What precedes the content of a node: an anchor and a tag in either order. The second part says
whether there is either. -/
def properties : Read (Option Nat × Bool) := do
  let anchor ← Read.anchor
  let tagged ← tag
  let anchor ← if anchor.isSome then pure anchor else Read.anchor
  return (anchor, anchor.isSome || tagged)

mutual

/-- A node. In `block` context it may be a block collection, and after a key or a colon also a
sequence whose dashes are not indented. -/
def node (block indentless : Bool) : Nat → Read Node
  | 0 => fail .unexpectedToken
  | n + 1 => do
    if let some (.alias name) ← peek then
      advance
      match (← get).anchors.lookup name with
      | some number => return .alias number
      | none => fail (.unknownAnchor name)
    else
      let (anchor, marked) ← properties
      match ← peek with
      | some .dash =>
        if indentless then return .sequence anchor (← indentlessItems n)
        else if marked then return .missing anchor
        else fail .unexpectedToken
      | some (.scalar plain text) =>
        advance
        return .scalar anchor plain text
      | some .openBracket =>
        advance
        return .sequence anchor (← flowItems true n)
      | some .openBrace =>
        advance
        return .mapping anchor (← flowEntries true n)
      | some .blockSequence =>
        if block then
          advance
          return .sequence anchor (← blockItems n)
        else if marked then return .missing anchor
        else fail .unexpectedToken
      | some .blockMapping =>
        if block then
          advance
          return .mapping anchor (← blockEntries n)
        else if marked then return .missing anchor
        else fail .unexpectedToken
      | _ => if marked then return .missing anchor else fail .unexpectedToken

def nodeUnless (ends : List Token) (block indentless : Bool) : Nat → Read Node
  | 0 => fail .unexpectedToken
  | n + 1 => do
    if ← isAny ends then return .missing none else node block indentless n

def blockItems : Nat → Read (List Node)
  | 0 => fail .unexpectedToken
  | n + 1 => do
    if ← skip .dash then
      let item ← nodeUnless [.dash, .blockEnd] true false n
      return item :: (← blockItems n)
    else if ← skip .blockEnd then return []
    else fail .unexpectedToken

def indentlessItems : Nat → Read (List Node)
  | 0 => fail .unexpectedToken
  | n + 1 => do
    if ← skip .dash then
      let item ← nodeUnless [.dash, .key, .value, .blockEnd] true false n
      return item :: (← indentlessItems n)
    else return []

def blockEntries : Nat → Read (List (Node × Node))
  | 0 => fail .unexpectedToken
  | n + 1 => do
    if ← skip .key then
      let key ← nodeUnless [.key, .value, .blockEnd] true true n
      let value ← if ← skip .value then nodeUnless [.key, .value, .blockEnd] true true n
        else pure (.missing none)
      return (key, value) :: (← blockEntries n)
    else if ← skip .blockEnd then return []
    else fail .unexpectedToken

def flowItems (first : Bool) : Nat → Read (List Node)
  | 0 => fail .unexpectedToken
  | n + 1 => do
    if ← skip .closeBracket then return []
    else if !(← separator first) then fail .unexpectedToken
    else if ← skip .key then
      let pair ← singlePair n
      return .mapping none [pair] :: (← flowItems false n)
    else if ← skip .closeBracket then return []
    else
      let item ← node false false n
      return item :: (← flowItems false n)

/-- A pair inside brackets. If it has no key, the token in the place of the key is lost. -/
def singlePair : Nat → Read (Node × Node)
  | 0 => fail .unexpectedToken
  | n + 1 => do
    let key ← if ← isAny [.value, .comma, .closeBracket] then
        advance
        pure (.missing none)
      else node false false n
    let value ← if ← skip .value then nodeUnless [.comma, .closeBracket] false false n
      else pure (.missing none)
    return (key, value)

def flowEntries (first : Bool) : Nat → Read (List (Node × Node))
  | 0 => fail .unexpectedToken
  | n + 1 => do
    if ← skip .closeBrace then return []
    else if !(← separator first) then fail .unexpectedToken
    else if ← skip .key then
      let key ← nodeUnless [.value, .comma, .closeBrace] false false n
      let value ← if ← skip .value then nodeUnless [.comma, .closeBrace] false false n
        else pure (.missing none)
      return (key, value) :: (← flowEntries false n)
    else if ← skip .closeBrace then return []
    else
      let key ← node false false n
      return (key, .missing none) :: (← flowEntries false n)

end

/-- The directives before a document: at most one version, which has to be 1.1 or 1.2, and tag
handles, each at most once. Says whether there are any. -/
def directives (versioned : Bool) : Nat → Read Bool
  | 0 => fail .unexpectedToken
  | n + 1 => do
    match ← peek with
    | some (.version major minor) =>
      if versioned || major ≠ 1 || (minor ≠ 1 && minor ≠ 2) then fail .badDirective
      else
        advance
        let _ ← directives true n
        return true
    | some (.tagHandle handle) =>
      if (← get).handles.contains handle then fail .badDirective
      else
        advance
        modify fun r => { r with handles := handle :: r.handles }
        let _ ← directives versioned n
        return true
    | _ => return false

def document (n : Nat) : Read Node := do
  if (← peek).isNone then fail .noDocument
  else
    let directed ← directives false n
    let started ← skip .documentStart
    if directed && !started then fail .unexpectedToken
    else
      let root ← if started && (← contentEnds) then pure (.missing none) else node true false n
      modify fun r => { r with tokens := r.tokens.dropWhile (· = .documentEnd) }
      if (← peek).isSome then fail .severalDocuments else return root
where
  contentEnds : Read Bool := do
    match ← peek with
    | none | some (.version _ _) | some (.tagHandle _) | some .documentStart
    | some .documentEnd => return true
    | _ => return false

end Read

structure Document where
  root : Node
  /-- The nodes with anchors. Of several with one anchor, an alias means the first. -/
  anchored : List (Nat × Node) := root.anchored []
  /-- How many aliases may be followed: a hundred for each mark that the document consists of. -/
  limit : Nat := 100 * root.size

/-- Reads a text. Each nested call has used up a token or is made by one that has, so three for each
token are enough. -/
def Document.ofText (text : String) : Except Fault Document := do
  let tokens ← Yaml.tokens text
  let (root, _) ← (Read.document (3 * tokens.length + 3)).run { tokens }
  return { root }

end Munch.Yaml
