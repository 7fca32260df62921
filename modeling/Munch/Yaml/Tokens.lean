import Munch.Yaml.Token

namespace Munch.Yaml

/-- A place where a key may have begun. At the column of its collection it must have. -/
structure PossibleKey where
  required : Bool
  number : Nat
  line : Nat
  column : Nat
  offset : Nat

/-- A text read up to `rest`. `key` is where a key may have begun since the innermost open bracket,
`outer` the same for the brackets around that one. -/
structure Scan where
  rest : List Glyph
  tokens : List Token := []
  count : Nat := 0
  indents : List Nat := []
  key : Option PossibleKey := none
  outer : List (Option PossibleKey) := []
  fresh : Bool := true

namespace Scan

def inFlow (s : Scan) : Bool := !s.outer.isEmpty

def push (t : Token) (s : Scan) : Scan :=
  { s with tokens := t :: s.tokens, count := s.count + 1 }

/-- A key is known only by the colon after it, when there are tokens behind it already. -/
def insert (number : Nat) (t : Token) (s : Scan) : Scan :=
  { s with tokens := s.tokens.insertIdx (s.count - number) t, count := s.count + 1 }

/-- Skips blanks, comments and line breaks. Where a key may begin, a tab is no blank. A byte order
mark that begins a line is skipped too, and fills a column. -/
def skip (flow : Bool) (fresh comment : Bool) : List Glyph → Bool × List Glyph
  | [] => (fresh, [])
  | g :: rest =>
    if isBreak g.char then skip flow (fresh || !flow) false rest
    else if comment || g.char = ' ' || g.char = '\t' && (flow || !fresh)
        || g.char = '\ufeff' && g.column = 0 then
      skip flow fresh comment rest
    else if g.char = '#' then skip flow fresh true rest
    else (fresh, g :: rest)

def checkKey (g : Glyph) : Option PossibleKey → Except Fault (Option PossibleKey)
  | none => .ok none
  | some k =>
    if k.line = g.line && g.offset ≤ k.offset + 1024 then .ok (some k)
    else if k.required then .error .unfinishedKey
    else .ok none

def checkKeys (g : Glyph) (s : Scan) : Except Fault Scan := do
  let key ← checkKey g s.key
  let outer ← s.outer.mapM (checkKey g)
  .ok { s with key, outer }

def dropKey (s : Scan) : Except Fault Scan :=
  if s.key.any (·.required) then .error .unfinishedKey else .ok { s with key := none }

def saveKey (g : Glyph) (s : Scan) : Except Fault Scan :=
  if !s.fresh then .ok s
  else do
    let s ← s.dropKey
    .ok { s with
      key := some {
        required := !s.inFlow && s.indents.head? = some g.column
        number := s.count
        line := g.line
        column := g.column
        offset := g.offset } }

def unroll (column : Nat) (s : Scan) : Scan :=
  if s.inFlow then s
  else
    let (closed, indents) := s.indents.span (column < ·)
    { closed.foldl (fun s _ => s.push .blockEnd) s with indents }

def unrollAll (s : Scan) : Scan :=
  if s.inFlow then s
  else { s.indents.foldl (fun s _ => s.push .blockEnd) s with indents := [] }

def roll (column number : Nat) (t : Token) (s : Scan) : Scan :=
  if s.inFlow || s.indents.head?.any (column ≤ ·) then s
  else { s.insert number t with indents := column :: s.indents }

/-- Opens a block collection before the next token. Only the beginning of a line or of an entry is
a place for that. -/
def rollHere (g : Glyph) (t : Token) (s : Scan) : Except Fault Scan :=
  if s.inFlow then .ok s
  else if s.fresh then .ok (s.roll g.column s.count t)
  else .error .unexpectedToken

def take (t : Token) (rest : List Glyph) (fresh : Bool) (s : Scan) : Scan :=
  { s.push t with rest, fresh }

def openFlow (g : Glyph) (rest : List Glyph) (t : Token) (s : Scan) : Except Fault Scan := do
  let s ← s.saveKey g
  .ok { s.take t rest true with key := none, outer := s.key :: s.outer }

def closeFlow (rest : List Glyph) (t : Token) (s : Scan) : Except Fault Scan := do
  let s ← s.dropKey
  match s.outer with
  | [] => .ok (s.take t rest false)
  | key :: outer => .ok { s.take t rest false with key, outer }

def value (g : Glyph) (rest : List Glyph) (s : Scan) : Except Fault Scan :=
  match s.key with
  | some k =>
    let s := (s.insert k.number .key).roll k.column k.number .blockMapping
    .ok ({ s with key := none }.take .value rest false)
  | none => do
    let s ← s.rollHere g .blockMapping
    .ok (s.take .value rest !s.inFlow)

def node (g : Glyph) (read : Except Fault (Token × List Glyph)) (s : Scan) :
    Except Fault Scan := do
  let s ← s.saveKey g
  let (t, rest) ← read
  .ok (s.take t rest false)

def token (g : Glyph) (rest : List Glyph) (s : Scan) : Except Fault Scan := do
  let gs := g :: rest
  if g.column = 0 && g.char = '%' then
    let s ← s.unrollAll.dropKey
    let (t, rest) ← Token.ofDirective rest
    .ok (s.take t rest false)
  else if Glyph.atDocumentMark '-' gs then
    let s ← s.unrollAll.dropKey
    .ok (s.take .documentStart (gs.drop 3) false)
  else if Glyph.atDocumentMark '.' gs then
    let s ← s.unrollAll.dropKey
    .ok (s.take .documentEnd (gs.drop 3) false)
  else if g.char = '[' then s.openFlow g rest .openBracket
  else if g.char = '\x7b' then s.openFlow g rest .openBrace
  else if g.char = ']' then s.closeFlow rest .closeBracket
  else if g.char = '\x7d' then s.closeFlow rest .closeBrace
  else if g.char = ',' then
    let s ← s.dropKey
    .ok (s.take .comma rest true)
  else if g.char = '-' && Glyph.atSpace rest then
    let s ← s.rollHere g .blockSequence
    let s ← s.dropKey
    .ok (s.take .dash rest true)
  else if g.char = '?' && (s.inFlow || Glyph.atSpace rest) then
    let s ← s.rollHere g .blockMapping
    let s ← s.dropKey
    .ok (s.take .key rest !s.inFlow)
  else if g.char = ':' && (s.inFlow || Glyph.atSpace rest) then s.value g rest
  else if g.char = '*' then s.node g ((Token.name rest).map fun (name, r) => (.alias name, r))
  else if g.char = '&' then s.node g ((Token.name rest).map fun (name, r) => (.anchor name, r))
  else if g.char = '!' then s.node g (Token.ofTag s.inFlow gs)
  else if (g.char = '|' || g.char = '>') && !s.inFlow then
    let s ← s.dropKey
    let (text, rest) ← Block.scalar (g.char = '>') s.indents.head? rest
    .ok (s.take (.scalar false text) rest true)
  else if g.char = '\'' then s.node g (quoted .single rest)
  else if g.char = '"' then s.node g (quoted .double rest)
  else if PlainScalar.canStart s.inFlow gs then
    let s ← s.saveKey g
    let p ← PlainScalar.read s.inFlow (s.indents.head?.elim 0 (· + 1)) [] .none gs
    .ok (s.take (.scalar true p.text) p.rest p.broken)
  else .error (.unexpectedCharacter g.char)
where
  quoted (style : QuoteStyle) (gs : List Glyph) : Except Fault (Token × List Glyph) :=
    (Quoted.read style .text [] .none gs).map fun (text, r) => (.scalar false text, r)

def run : Nat → Scan → Except Fault (List Token)
  | 0, _ => .error .unexpectedToken
  | n + 1, s =>
    let (fresh, rest) := skip s.inFlow s.fresh false s.rest
    match rest with
    | [] => do
      let s ← { s with fresh, rest }.unrollAll.dropKey
      .ok s.tokens.reverse
    | g :: rest => do
      let s ← { s with fresh }.checkKeys g
      let s ← (s.unroll g.column).token g rest
      s.run n

end Scan

def tokens (text : String) : Except Fault (List Token) := do
  let gs ← Glyph.ofText text
  Scan.run (gs.length + 1) { rest := gs }

end Munch.Yaml
