import Munch.Yaml.Glyph

namespace Munch.Yaml

inductive Chomp
  | strip
  | clip
  | keep
  deriving DecidableEq

namespace Block

def header (gs : List Glyph) : Except Fault (Chomp × Option Nat × List Glyph) :=
  let (chomp, gs) := sign gs
  let (increment, gs) := digit gs
  let (chomp, gs) := if chomp.isSome then (chomp, gs) else sign gs
  let gs := Glyph.restOfLine gs
  if increment = some 0 || !Glyph.atBreak gs then .error .badBlockHeader
  else .ok (chomp.getD .clip, increment, gs.tail)
where
  sign : List Glyph → Option Chomp × List Glyph
    | [] => (none, [])
    | g :: gs =>
      if g.char = '+' then (some .keep, gs)
      else if g.char = '-' then (some .strip, gs)
      else (none, g :: gs)
  digit : List Glyph → Option Nat × List Glyph
    | [] => (none, [])
    | g :: gs => if g.char.isDigit then (some (g.char.toNat - '0'.toNat), gs) else (none, g :: gs)

/-- What was read, last character first: the text, the break behind its last line, and those of the
empty lines since. Until a line of text fixes `indent`, `reached` is the column furthest to the
right. -/
structure State where
  text : List Char := []
  last : Option Char := none
  empty : List Char := []
  blank : Bool := false
  inLine : Bool := false
  indent : Option Nat
  reached : Nat := 0

/-- Begins a line of text with `c`. Folding joins it to the last line, unless one of the two begins
with a blank. -/
def State.begin (folded : Bool) (c : Char) (s : State) : State :=
  let joins := folded && s.last = some '\n' && !s.blank && !isBlank c
  let last := if !joins then s.last.toList else if s.empty = [] then [' '] else []
  { s with
    text := c :: (s.empty ++ last ++ s.text)
    last := none
    empty := []
    blank := isBlank c
    inLine := true }

def State.finish (chomp : Chomp) (s : State) : String :=
  let last := if chomp = .strip then [] else s.last.toList
  let empty := if chomp = .keep then s.empty else []
  .ofList (empty ++ last ++ s.text).reverse

def read (folded : Bool) (chomp : Chomp) (floor : Nat) (s : State) :
    List Glyph → Except Fault (String × List Glyph)
  | [] => .ok (s.finish chomp, [])
  | g :: rest =>
    if s.inLine then
      let s := if isBreak g.char then { s with last := some g.char, inLine := false }
        else { s with text := g.char :: s.text }
      read folded chomp floor s rest
    else
      let before := s.indent.all (g.column < ·)
      let s := { s with reached := max s.reached g.column }
      if before && g.char = ' ' then read folded chomp floor s rest
      else if before && g.char = '\t' then .error .badIndentation
      else if isBreak g.char then read folded chomp floor { s with empty := g.char :: s.empty } rest
      else
        let indent := s.indent.getD (max s.reached floor)
        if g.column = indent then
          read folded chomp floor ({ s with indent := some indent }.begin folded g.char) rest
        else .ok (s.finish chomp, g :: rest)

def scalar (folded : Bool) (parent : Option Nat) (gs : List Glyph) :
    Except Fault (String × List Glyph) := do
  let (chomp, increment, gs) ← header gs
  let indent := increment.map (parent.getD 0 + ·)
  read folded chomp (max 1 (parent.elim 0 (· + 1))) { indent } gs

end Block

end Munch.Yaml
