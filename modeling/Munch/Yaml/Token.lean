import Munch.Yaml.Scalar.Block
import Munch.Yaml.Scalar.Plain
import Munch.Yaml.Scalar.Quoted

namespace Munch.Yaml

inductive Token
  | version (major minor : Nat)
  | tagHandle (handle : String)
  | documentStart
  | documentEnd
  | blockSequence
  | blockMapping
  | blockEnd
  | openBracket
  | closeBracket
  | openBrace
  | closeBrace
  | dash
  | comma
  | key
  | value
  | alias (name : String)
  | anchor (name : String)
  /-- A tag's handle is empty where the tag is written out. -/
  | tag (handle : String)
  | scalar (plain : Bool) (text : String)
  deriving DecidableEq

namespace Token

def word (gs : List Glyph) : String × List Glyph :=
  let (name, rest) := gs.span (isWord ·.char)
  (Glyph.text name, rest)

def name (gs : List Glyph) : Except Fault (String × List Glyph) :=
  let (name, rest) := word gs
  if name.isEmpty then .error .badAnchor
  else if Glyph.atSpace rest || Glyph.atAny ['?', ':', ',', ']', '\x7d', '%', '@', '\x60'] rest then
    .ok (name, rest)
  else .error .badAnchor

def isUriCharacter (wide : Bool) (c : Char) : Bool :=
  isWord c || ";/?:@&=+$.!~*'()".toList.contains c || wide && [',', '[', ']'].contains c

def following? (octet : Nat) : Option Nat :=
  if octet < 0x80 then some 0
  else if octet / 0x20 = 6 then some 1
  else if octet / 0x10 = 14 then some 2
  else if octet / 0x08 = 30 then some 3
  else none

/-- Skips a URI and counts its characters. Escaped bytes form sequences of the lengths that their
first bytes promise, with `due` bytes missing from the current one. -/
def uri (wide : Bool) (due count : Nat) : List Glyph → Except Fault (Nat × List Glyph)
  | [] => if due = 0 then .ok (count, []) else .error .badTag
  | g :: rest =>
    if g.char = '%' then
      match rest with
      | a :: b :: rest =>
        match Quoted.hexValue? a.char, Quoted.hexValue? b.char, due with
        | some a, some b, 0 =>
          match following? (a * 16 + b) with
          | some due => uri wide due (count + 1) rest
          | none => .error .badTag
        | some a, some _, due + 1 =>
          if a / 4 = 2 then uri wide due count rest else .error .badTag
        | _, _, _ => .error .badTag
      | _ => .error .badTag
    else if due ≠ 0 then .error .badTag
    else if isUriCharacter wide g.char then uri wide 0 (count + 1) rest
    else .ok (count, g :: rest)

def handle (gs : List Glyph) : String × Bool × List Glyph :=
  let (name, rest) := word (gs.drop 1)
  if Glyph.atAny ['!'] rest then ("!" ++ name ++ "!", true, rest.drop 1)
  else ("!" ++ name, false, rest)

def ofTag (flow : Bool) (gs : List Glyph) : Except Fault (Token × List Glyph) := do
  let (handle, rest) ← body gs
  if Glyph.atSpace rest || flow && Glyph.atAny [','] rest then .ok (.tag handle, rest)
  else .error .badTag
where
  body (gs : List Glyph) : Except Fault (String × List Glyph) := do
    if Glyph.atAny ['<'] (gs.drop 1) then
      let (n, rest) ← uri true 0 0 (gs.drop 2)
      if n ≠ 0 && Glyph.atAny ['>'] rest then .ok ("", rest.drop 1) else .error .badTag
    else
      let (handle, closed, rest) := handle gs
      let (n, rest) ← uri false 0 0 rest
      if closed then if n = 0 then .error .badTag else .ok (handle, rest)
      else .ok ("", rest)

def versionPart (gs : List Glyph) : Except Fault (Nat × List Glyph) :=
  let (digits, rest) := gs.span (·.char.isDigit)
  if digits.isEmpty || 9 < digits.length then .error .badDirective
  else .ok (digits.foldl (fun n g => n * 10 + (g.char.toNat - '0'.toNat)) 0, rest)

def ofDirective (gs : List Glyph) : Except Fault (Token × List Glyph) := do
  let (name, rest) := word gs
  if !Glyph.atSpace rest then .error .badDirective
  else
    let (token, rest) ← body name (Glyph.skipBlanks rest)
    let rest := Glyph.restOfLine rest
    if Glyph.atBreak rest then .ok (token, rest.tail) else .error .badDirective
where
  body (name : String) (gs : List Glyph) : Except Fault (Token × List Glyph) := do
    if name = "YAML" then
      let (major, rest) ← versionPart gs
      if !Glyph.atAny ['.'] rest then .error .badDirective
      else
        let (minor, rest) ← versionPart (rest.drop 1)
        .ok (.version major minor, rest)
    else if name = "TAG" then
      let (handle, closed, rest) := handle gs
      if !Glyph.atAny ['!'] gs || !closed && handle ≠ "!" || !Glyph.atAny [' ', '\t'] rest then
        .error .badDirective
      else
        let (n, rest) ← uri true 0 0 (Glyph.skipBlanks rest)
        if n = 0 || !Glyph.atSpace rest then .error .badDirective
        else .ok (.tagHandle handle, rest)
    else .error .badDirective

end Token

end Munch.Yaml
