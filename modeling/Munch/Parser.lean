import Munch.Progress

/-! A parser yields one token per call and hides the characters dropped between them, which it
only counts. Once it has seen the end it yields the end forever, whatever becomes of its lexer. -/

namespace Munch

structure Passage (σ ι : Type) where
  skipped : List Char
  result : Except StreamError (Result ι)
  lexer : Lexer σ ι

namespace Lexer

variable {σ ι : Type} [FiniteSource σ Char]

/-- Steps on to the next result. The characters already dropped are given last one first. -/
def passageFrom (skipped : List Char) (l : Lexer σ ι) : Passage σ ι :=
  match _h : l.nextToken with
  | (.ok (.skipped c), l) => l.passageFrom (c :: skipped)
  | (.ok (.matched t), l) => ⟨skipped.reverse, .ok (.matched t), l⟩
  | (.ok .ended, l) => ⟨skipped.reverse, .ok .endOfStream, l⟩
  | (.error e, l) => ⟨skipped.reverse, .error e, l⟩
termination_by l.weight
decreasing_by exact weight_nextToken_lt _h nofun

def passage (l : Lexer σ ι) : Passage σ ι := l.passageFrom []

theorem weight_passageFrom_lt {skipped : List Char} {l : Lexer σ ι} {t : Token ι}
    (h : (l.passageFrom skipped).result = .ok (.matched t)) :
    (l.passageFrom skipped).lexer.weight < l.weight := by
  fun_induction passageFrom skipped l with
  | case1 skipped l c l' hn ih =>
    exact Nat.lt_trans (ih h) (weight_nextToken_lt hn nofun)
  | case2 skipped l t l' hn => exact weight_nextToken_lt hn nofun
  | case3 => simp at h
  | case4 => simp at h

end Lexer

inductive Phase
  | running
  | exhausted
  deriving DecidableEq

structure Stats where
  tokens : Nat := 0
  matchedUnits : Nat := 0
  skippedUnits : Nat := 0
  deriving DecidableEq

def Stats.consumedUnits (s : Stats) : Nat := s.matchedUnits + s.skippedUnits

structure Parser (σ ι : Type) where
  lexer : Lexer σ ι
  phase : Phase := .running
  stats : Stats := {}

namespace Parser

variable {σ ι : Type}

def create (grammar : Grammar ι) (source : σ) : Parser σ ι := { lexer := .create grammar source }

def close [Source σ Char] (p : Parser σ ι) : Except StreamError Unit × Parser σ ι :=
  let (result, lexer) := p.lexer.close
  (result, { p with lexer })

def settle (p : Parser σ ι) (way : Passage σ ι) : Except StreamError (Result ι) × Parser σ ι :=
  let lexer := way.lexer
  let stats := { p.stats with skippedUnits := p.stats.skippedUnits + way.skipped.length }
  match way.result with
  | .ok (.matched t) => (.ok (.matched t), { p with
      lexer
      stats := { stats with
        tokens := stats.tokens + 1
        matchedUnits := stats.matchedUnits + t.length } })
  | .ok .endOfStream => (.ok .endOfStream, { lexer, stats, phase := .exhausted })
  | .error e => (.error e, { p with lexer, stats })

variable [FiniteSource σ Char]

def parseOne (p : Parser σ ι) : Except StreamError (Result ι) × Parser σ ι :=
  match p.phase with
  | .exhausted => (.ok .endOfStream, p)
  | .running => p.settle p.lexer.passage

theorem weight_parseOne_lt {p p' : Parser σ ι} {t : Token ι}
    (h : p.parseOne = (.ok (.matched t), p')) : p'.lexer.weight < p.lexer.weight := by
  unfold parseOne at h
  split at h
  · simp at h
  · dsimp only [settle] at h
    split at h
    · next t' hr =>
      obtain ⟨-, rfl⟩ := by simpa using h
      exact Lexer.weight_passageFrom_lt hr
    · simp at h
    · simp at h

def collectFrom (tokens : List (Token ι)) (p : Parser σ ι) :
    List (Token ι) × Except StreamError Unit × Parser σ ι :=
  match _h : p.parseOne with
  | (.ok (.matched t), p) => p.collectFrom (t :: tokens)
  | (.ok .endOfStream, p) => (tokens.reverse, .ok (), p)
  | (.error e, p) => (tokens.reverse, .error e, p)
termination_by p.lexer.weight
decreasing_by exact weight_parseOne_lt _h

def collect (p : Parser σ ι) : List (Token ι) × Except StreamError Unit × Parser σ ι :=
  p.collectFrom []

def finish (p : Parser σ ι) : Except StreamError Unit × Parser σ ι :=
  match _h : p.parseOne with
  | (.ok (.matched _), p) => p.finish
  | (.ok .endOfStream, p) => (.ok (), p)
  | (.error e, p) => (.error e, p)
termination_by p.lexer.weight
decreasing_by exact weight_parseOne_lt _h

end Parser

structure Tokens (σ ι : Type) where
  parser : Parser σ ι
  done : Bool := false

def Parser.tokens {σ ι : Type} (p : Parser σ ι) : Tokens σ ι := { parser := p }

def Tokens.settle {σ ι : Type} :
    Except StreamError (Result ι) × Parser σ ι →
      Option (Except StreamError (Token ι)) × Tokens σ ι
  | (.ok (.matched t), parser) => (some (.ok t), ⟨parser, false⟩)
  | (.ok .endOfStream, parser) => (none, ⟨parser, true⟩)
  | (.error e, parser) => (some (.error e), ⟨parser, true⟩)

def Tokens.next {σ ι : Type} [FiniteSource σ Char] (ts : Tokens σ ι) :
    Option (Except StreamError (Token ι)) × Tokens σ ι :=
  if ts.done then (none, ts) else settle ts.parser.parseOne

end Munch
