import Munch.Parser

/-! What is noted once a grammar is built. It takes no part in the run: each entry follows from what
an operation was given, what it yielded and what it left behind. -/

namespace Munch

namespace Journal

variable {σ υ ι : Type}

def created (c : Channel σ υ) : List Entry :=
  [⟨.debug, .channel, s!"pushback channel created with capacity {c.capacity}"⟩]

def failure (after : Channel σ υ) : StreamError → List Entry
  | .failed e =>
    ⟨.error, .channel, s!"upstream source failed after {after.pulled} units: {e.message}"⟩ ::
      match after.stage with
      | .closed (some f) =>
        [⟨.warn, .channel, s!"failed to close upstream source after error: {f.message}"⟩]
      | _ => []
  | _ => []

def ofRead (after : Channel σ υ) : Except StreamError (Option υ) → List Entry
  | .error e => failure after e
  | .ok _ => []

def ofPushBack (t : Token ι) : Except StreamError Unit → List Entry
  | .ok () => [⟨.trace, .lexer, s!"token {quoted t.text} pushed back"⟩]
  | .error _ => []

def skipped (c : Char) : Entry := ⟨.trace, .lexer, s!"skipped unmatched {quoted c}"⟩

def matched [Quoted ι] (before : Lexer σ ι) (t : Token ι) : List Entry :=
  if before.pending.isEmpty then
    [⟨.trace, .lexer, s!"matched {quoted t.text} as {quoted t.alternative}"⟩]
  else []

def ended (after : Lexer σ ι) : Entry :=
  ⟨.debug, .lexer, s!"end of stream after {after.channel.pulled} upstream units"⟩

def ofStep [Quoted ι] (before after : Lexer σ ι) : Except StreamError (Outcome ι) → List Entry
  | .ok (.matched t) => matched before t
  | .ok (.skipped c) => [skipped c]
  | .ok .ended => [ended after]
  | .error e => failure after.channel e

def ofPassage [Quoted ι] (before : Lexer σ ι) (p : Passage σ ι) : List Entry :=
  p.skipped.map skipped ++
    match p.result with
    | .ok (.matched t) => matched before t
    | .ok .endOfStream => [ended p.lexer]
    | .error e => failure p.lexer.channel e

def ofParse [Quoted ι] [FiniteSource σ Char] (before : Parser σ ι) : List Entry :=
  match before.phase with
  | .running => ofPassage before.lexer before.lexer.passage
  | .exhausted => []

end Journal

end Munch
