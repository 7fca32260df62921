import Munch.Yaml.Scalar.Gap

namespace Munch.Yaml

inductive QuoteStyle
  | single
  | double
  deriving DecidableEq

namespace QuoteStyle

def char : QuoteStyle → Char
  | .single => '\''
  | .double => '"'

end QuoteStyle

namespace Quoted

inductive Mode
  | text
  | second
  | escaped
  | digit (n value : Nat)

def escape? : Char → Option Char
  | '0' => some '\x00'
  | 'a' => some '\x07'
  | 'b' => some '\x08'
  | 't' | '\t' => some '\t'
  | 'n' => some '\n'
  | 'v' => some '\x0b'
  | 'f' => some '\x0c'
  | 'r' => some '\r'
  | 'e' => some '\x1b'
  | ' ' => some ' '
  | '"' => some '"'
  | '/' => some '/'
  | '\\' => some '\\'
  | 'N' => some '\u0085'
  | '_' => some '\u00a0'
  | 'L' => some '\u2028'
  | 'P' => some '\u2029'
  | _ => none

def digits? : Char → Option Nat
  | 'x' => some 1
  | 'u' => some 3
  | 'U' => some 7
  | _ => none

def hexValue? (c : Char) : Option Nat :=
  if '0' ≤ c && c ≤ '9' then some (c.toNat - '0'.toNat)
  else if 'a' ≤ c && c ≤ 'f' then some (c.toNat - 'a'.toNat + 10)
  else if 'A' ≤ c && c ≤ 'F' then some (c.toNat - 'A'.toNat + 10)
  else none

def character? (n : Nat) : Option Char :=
  if n.isValidChar then some (.ofNat n) else none

def read (style : QuoteStyle) (mode : Mode) (text : List Char) (gap : Gap) :
    List Glyph → Except Fault (String × List Glyph)
  | [] => .error .unclosedQuote
  | g :: rest =>
    match mode with
    | .second => read style .text (g.char :: text) .none rest
    | .escaped =>
      if isBreak g.char then read style .text text (.breaks none []) rest
      else
        match digits? g.char, escape? g.char with
        | some n, _ => read style (.digit n 0) text .none rest
        | none, some c => read style .text (c :: text) .none rest
        | none, none => .error .badEscape
    | .digit n value =>
      match hexValue? g.char, n with
      | none, _ => .error .badEscape
      | some d, n + 1 => read style (.digit n (value * 16 + d)) text .none rest
      | some d, 0 =>
        match character? (value * 16 + d) with
        | none => .error .badEscape
        | some c => read style .text (c :: text) .none rest
    | .text =>
      if isSpace g.char then read style .text text (gap.add g.char) rest
      else if Glyph.atDocumentMark '-' (g :: rest) || Glyph.atDocumentMark '.' (g :: rest) then
        .error .unclosedQuote
      else
        let text := gap.folded ++ text
        if g.char = style.char then
          if style = .single && Glyph.atAny ['\''] rest then read style .second text .none rest
          else .ok (.ofList text.reverse, rest)
        else if style = .double && g.char = '\\' then read style .escaped text .none rest
        else read style .text (g.char :: text) .none rest

end Quoted

end Munch.Yaml
