import Munch.Yaml.Fault

namespace Munch.Yaml

def isAllowed (c : Char) : Bool :=
  let n := c.toNat
  n = 0x09 || n = 0x0a || n = 0x0d || 0x20 ≤ n && n ≤ 0x7e || n = 0x85 || 0xa0 ≤ n && n ≤ 0xd7ff
    || 0xe000 ≤ n && n ≤ 0xfffd || 0x10000 ≤ n

def isBlank (c : Char) : Bool := c = ' ' || c = '\t'

def isBreak (c : Char) : Bool := c = '\n' || c = '\u2028' || c = '\u2029'

def isSpace (c : Char) : Bool := isBlank c || isBreak c

def isWord (c : Char) : Bool := c.isAlphanum || c = '_' || c = '-'

def unifyBreaks : List Char → List Char
  | [] => []
  | '\r' :: '\n' :: cs => '\n' :: unifyBreaks cs
  | '\r' :: cs => '\n' :: unifyBreaks cs
  | '\u0085' :: cs => '\n' :: unifyBreaks cs
  | c :: cs => c :: unifyBreaks cs

structure Glyph where
  char : Char
  line : Nat
  column : Nat
  offset : Nat

namespace Glyph

def place (line column offset : Nat) : List Char → List Glyph
  | [] => []
  | c :: cs =>
    ⟨c, line, column, offset⟩ ::
      if isBreak c then place (line + 1) 0 (offset + c.utf8Size) cs
      else place line (column + 1) (offset + c.utf8Size) cs

def ofText (text : String) : Except Fault (List Glyph) :=
  if text.toList.all isAllowed then .ok (place 0 0 0 (unifyBreaks text.toList))
  else .error .badCharacter

def atSpace : List Glyph → Bool
  | [] => true
  | g :: _ => isSpace g.char

def atBreak : List Glyph → Bool
  | [] => true
  | g :: _ => isBreak g.char

def atAny (cs : List Char) : List Glyph → Bool
  | [] => false
  | g :: _ => cs.contains g.char

def atDocumentMark (mark : Char) : List Glyph → Bool
  | a :: b :: c :: rest =>
    a.column = 0 && a.char = mark && b.char = mark && c.char = mark && atSpace rest
  | _ => false

def skipBlanks : List Glyph → List Glyph := List.dropWhile (isBlank ·.char)

def restOfLine (gs : List Glyph) : List Glyph :=
  let gs := skipBlanks gs
  if atAny ['#'] gs then gs.dropWhile (!isBreak ·.char) else gs

def text (gs : List Glyph) : String := .ofList (gs.map (·.char))

end Glyph

end Munch.Yaml
