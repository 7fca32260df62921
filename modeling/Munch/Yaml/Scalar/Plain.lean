import Munch.Yaml.Scalar.Gap

namespace Munch.Yaml

structure PlainScalar where
  text : String
  broken : Bool
  rest : List Glyph

namespace PlainScalar

/-- Whether a plain scalar can begin here. Indicators begin other tokens, but a dash does not when
text follows it, nor do `?` and `:` outside brackets. -/
def canStart (flow : Bool) : List Glyph → Bool
  | [] => false
  | g :: rest =>
    !isSpace g.char && !"-?:,[]\x7b\x7d#&*!|>'\"%@\x60".toList.contains g.char
      || g.char = '-' && !(match rest with
        | [] => false
        | h :: _ => isBlank h.char)
      || !flow && (g.char = '?' || g.char = ':') && !Glyph.atSpace rest

def stops (flow : Bool) (c : Char) (rest : List Glyph) : Bool :=
  c = ':' && Glyph.atSpace rest || flow && [',', '[', ']', '\x7b', '\x7d'].contains c

def read (flow : Bool) (indent : Nat) (text : List Char) (gap : Gap) :
    List Glyph → Except Fault PlainScalar
  | [] => .ok ⟨.ofList text.reverse, gap.isBroken, []⟩
  | g :: rest =>
    if isSpace g.char then
      if g.char = '\t' && gap.isBroken && g.column < indent then .error .badIndentation
      else read flow indent text (gap.add g.char) rest
    else if flow && g.char = ':' && Glyph.atAny [',', '?', '[', ']', '\x7b', '\x7d'] rest then
      .error (.unexpectedCharacter ':')
    else if !flow && g.column < indent && gap.isBroken || !gap.isNone && g.char = '#'
        || Glyph.atDocumentMark '-' (g :: rest) || Glyph.atDocumentMark '.' (g :: rest)
        || stops flow g.char rest then
      .ok ⟨.ofList text.reverse, gap.isBroken, g :: rest⟩
    else read flow indent (g.char :: (gap.folded ++ text)) .none rest

end PlainScalar

end Munch.Yaml
