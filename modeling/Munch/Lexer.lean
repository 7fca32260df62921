import Munch.Channel
import Munch.Grammar
import Munch.Token

/-! A lexer takes the longest literal that the stream goes on with, or drops one character where
there is none. It reads as long as some literal can still be completed and unreads what it read
beyond its choice. Tokens can be handed back and come first then, last one first. -/

namespace Munch

inductive Outcome (ι : Type)
  | matched (token : Token ι)
  | skipped (c : Char)
  | ended
  deriving DecidableEq

structure Search (ι : Type) where
  /-- The candidates that go on with what was read and are not complete, in trial order. -/
  viable : List (Candidate ι)
  /-- The last candidate to be completed, with what had been read by then. -/
  best : Option (Candidate ι × List Char)
  /-- The characters read, last one first. -/
  text : List Char

namespace Search

variable {σ ι : Type}

def start (g : Grammar ι) : Search ι := ⟨g.initial, none, []⟩

def advance (s : Search ι) (c : Char) : Search ι :=
  let reached := s.viable.filterMap (·.advance? c)
  let text := c :: s.text
  { viable := reached.filter (!·.isComplete)
    best := ((reached.find? (·.isComplete)).map (·, text)).or s.best
    text }

/-- What a finished search comes to, and how many of the characters read belong to that: all that
had been read for the best candidate, or the first character alone. -/
def verdict (s : Search ι) : Option (Outcome ι × Nat) :=
  match s.best, s.text.getLast? with
  | some (k, text), _ => some (.matched ⟨.ofList text.reverse, k.alternative.id⟩, text.length)
  | none, some first => some (.skipped first, 1)
  | none, none => none

def burden : List (Candidate ι) → Nat
  | [] => 0
  | k :: ks => k.rest.length + 1 + burden ks

def measure (s : Search ι) : Nat := burden s.viable

@[simp] theorem text_start (g : Grammar ι) : (start g).text = [] := rfl

@[simp] theorem text_advance (s : Search ι) (c : Char) : (s.advance c).text = c :: s.text := rfl

theorem burden_advance_le (c : Char) (ks : List (Candidate ι)) :
    burden ((ks.filterMap (·.advance? c)).filter (!·.isComplete)) + ks.length ≤ burden ks := by
  induction ks with
  | nil => simp [burden]
  | cons k ks ih =>
    cases hk : k.advance? c with
    | none =>
      simp only [List.filterMap_cons, hk, burden, List.length_cons]
      omega
    | some k' =>
      have := Candidate.length_of_advance? hk
      by_cases hc : k'.isComplete <;>
        simp only [List.filterMap_cons, hk, List.filter_cons, hc, Bool.not_true, Bool.not_false,
          Bool.false_eq_true, if_true, if_false, burden, List.length_cons] <;> omega

theorem measure_advance_lt (s : Search ι) (c : Char) (h : s.viable ≠ []) :
    (s.advance c).measure < s.measure := by
  have := burden_advance_le c s.viable
  have := List.length_pos_iff.2 h
  simp only [measure, advance]
  omega

variable [Source σ Char]

def run (s : Search ι) (c : Channel σ Char) : Except StreamError (Search ι) × Channel σ Char :=
  if _h : s.viable = [] then (.ok s, c)
  else
    match c.read with
    | (.error e, c) => (.error e, c)
    | (.ok none, c) => (.ok s, c)
    | (.ok (some u), c) => (s.advance u).run c
termination_by s.measure
decreasing_by exact s.measure_advance_lt u _h

end Search

structure Lexer (σ ι : Type) where
  grammar : Grammar ι
  channel : Channel σ Char
  pending : List (Token ι)

namespace Lexer

variable {σ ι : Type}

/-- A lexer never unreads more than all but one character of the longest literal. -/
def create (grammar : Grammar ι) (source : σ) : Lexer σ ι :=
  ⟨grammar, .create source (grammar.maxLength - 1), []⟩

def pushBack (l : Lexer σ ι) (t : Token ι) : Except StreamError Unit × Lexer σ ι :=
  if l.channel.isClosed then (.error .closed, l)
  else (.ok (), { l with pending := t :: l.pending })

variable [Source σ Char]

def close (l : Lexer σ ι) : Except StreamError Unit × Lexer σ ι :=
  let (result, channel) := l.channel.close
  (result, { l with channel, pending := [] })

def nextToken (l : Lexer σ ι) : Except StreamError (Outcome ι) × Lexer σ ι :=
  if l.channel.isClosed then (.error .closed, l)
  else
    match l.pending with
    | t :: pending => (.ok (.matched t), { l with pending })
    | [] =>
      match (Search.start l.grammar).run l.channel with
      | (.error e, channel) => (.error e, { l with channel })
      | (.ok s, channel) =>
        match s.verdict with
        | none => (.ok .ended, { l with channel })
        | some (outcome, kept) =>
          match channel.unread (s.text.take (s.text.length - kept)) with
          | (.error e, channel) => (.error e, { l with channel })
          | (.ok (), channel) => (.ok outcome, { l with channel := channel.commit })

end Lexer

end Munch
