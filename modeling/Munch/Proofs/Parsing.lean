import Munch.Parser

namespace Munch

variable {σ ι : Type}

section Source

variable [Source σ Char]

/-- The lexers that calls can make of a new one over `source`. -/
inductive Lexer.Reachable (g : Grammar ι) (source : σ) : Lexer σ ι → Prop
  | create : Reachable g source (.create g source)
  | nextToken {l : Lexer σ ι} : Reachable g source l → Reachable g source l.nextToken.2
  | pushBack {l : Lexer σ ι} (t : Token ι) :
      Reachable g source l → Reachable g source (l.pushBack t).2
  | close {l : Lexer σ ι} : Reachable g source l → Reachable g source l.close.2

theorem Lexer.Reachable.of_nextToken {g : Grammar ι} {source : σ} {l l' : Lexer σ ι}
    {answer : Except StreamError (Outcome ι)} (h : l.Reachable g source)
    (hn : l.nextToken = (answer, l')) : l'.Reachable g source := by
  have hnext := h.nextToken
  rwa [hn] at hnext

inductive Lexer.Passes : Lexer σ ι → Passage σ ι → Prop
  | skipped {l l' : Lexer σ ι} {c : Char} {way : Passage σ ι} :
      l.nextToken = (.ok (.skipped c), l') → Passes l' way →
        Passes l { way with skipped := c :: way.skipped }
  | matched {l l' : Lexer σ ι} {t : Token ι} :
      l.nextToken = (.ok (.matched t), l') → Passes l ⟨[], .ok (.matched t), l'⟩
  | ended {l l' : Lexer σ ι} :
      l.nextToken = (.ok .ended, l') → Passes l ⟨[], .ok .endOfStream, l'⟩
  | failed {l l' : Lexer σ ι} {e : StreamError} :
      l.nextToken = (.error e, l') → Passes l ⟨[], .error e, l'⟩

inductive Parser.Parses : Parser σ ι → Except StreamError (Result ι) × Parser σ ι → Prop
  | exhausted {p : Parser σ ι} : p.phase = .exhausted → Parses p (.ok .endOfStream, p)
  | running {p : Parser σ ι} {way : Passage σ ι} :
      p.phase = .running → p.lexer.Passes way → Parses p (p.settle way)

inductive Tokens.Yields :
    Tokens σ ι → Option (Except StreamError (Token ι)) × Tokens σ ι → Prop
  | finished {ts : Tokens σ ι} : ts.done = true → Yields ts (none, ts)
  | parse {ts : Tokens σ ι} {out : Except StreamError (Result ι) × Parser σ ι} :
      ts.done = false → ts.parser.Parses out → Yields ts (settle out)

theorem Lexer.Passes.unique {l : Lexer σ ι} {way way' : Passage σ ι} (h : l.Passes way)
    (h' : l.Passes way') : way = way' := by
  induction h generalizing way' with
  | skipped hn _ ih =>
    cases h' with
    | skipped hn' hway => rw [hn] at hn'; cases hn'; rw [ih hway]
    | matched hn' => rw [hn] at hn'; cases hn'
    | ended hn' => rw [hn] at hn'; cases hn'
    | failed hn' => rw [hn] at hn'; cases hn'
  | matched hn =>
    cases h' with
    | skipped hn' _ => rw [hn] at hn'; cases hn'
    | matched hn' => rw [hn] at hn'; cases hn'; rfl
    | ended hn' => rw [hn] at hn'; cases hn'
    | failed hn' => rw [hn] at hn'; cases hn'
  | ended hn =>
    cases h' with
    | skipped hn' _ => rw [hn] at hn'; cases hn'
    | matched hn' => rw [hn] at hn'; cases hn'
    | ended hn' => rw [hn] at hn'; cases hn'; rfl
    | failed hn' => rw [hn] at hn'; cases hn'
  | failed hn =>
    cases h' with
    | skipped hn' _ => rw [hn] at hn'; cases hn'
    | matched hn' => rw [hn] at hn'; cases hn'
    | ended hn' => rw [hn] at hn'; cases hn'
    | failed hn' => rw [hn] at hn'; cases hn'; rfl

end Source

inductive Answer (ι : Type)
  | parsed (result : Except StreamError (Result ι))
  | yielded (item : Option (Except StreamError (Token ι)))

def Answer.token? : Answer ι → Option (Token ι)
  | .parsed (.ok result) => result.token?
  | .yielded (some (.ok t)) => some t
  | _ => none

def Answer.fault? : Answer ι → Option StreamError
  | .parsed (.error e) => some e
  | .yielded (some (.error e)) => some e
  | _ => none

inductive Calls [Source σ Char] : Tokens σ ι → List (Answer ι) → Tokens σ ι → Prop
  | nil {ts : Tokens σ ι} : Calls ts [] ts
  | parseOne {ts ts' : Tokens σ ι} {result : Except StreamError (Result ι)} {p : Parser σ ι}
      {answers : List (Answer ι)} :
      ts.parser.Parses (result, p) → Calls { ts with parser := p } answers ts' →
        Calls ts (.parsed result :: answers) ts'
  | tokens {ts ts' : Tokens σ ι} {answers : List (Answer ι)} :
      Calls ts.parser.tokens answers ts' → Calls ts answers ts'
  | next {ts ts' ts'' : Tokens σ ι} {item : Option (Except StreamError (Token ι))}
      {answers : List (Answer ι)} :
      ts.Yields (item, ts') → Calls ts' answers ts'' → Calls ts (.yielded item :: answers) ts''

section FiniteSource

variable [FiniteSource σ Char]

theorem Lexer.passes_passageFrom (skipped : List Char) (l : Lexer σ ι) :
    ∃ way, l.Passes way ∧
      l.passageFrom skipped = { way with skipped := skipped.reverse ++ way.skipped } := by
  fun_induction passageFrom skipped l with
  | case1 skipped l c l' hn ih =>
    obtain ⟨way, hway, heq⟩ := ih
    refine ⟨_, .skipped hn hway, ?_⟩
    rw [heq]
    simp
  | case2 skipped l t l' hn => exact ⟨_, .matched hn, by simp⟩
  | case3 skipped l l' hn => exact ⟨_, .ended hn, by simp⟩
  | case4 skipped l e l' hn => exact ⟨_, .failed hn, by simp⟩

theorem Lexer.passes_passage (l : Lexer σ ι) : l.Passes l.passage := by
  obtain ⟨way, hway, heq⟩ := l.passes_passageFrom []
  rw [passage, heq]
  exact hway

theorem Lexer.passes_iff {l : Lexer σ ι} {way : Passage σ ι} :
    l.Passes way ↔ l.passage = way := by
  constructor
  · exact l.passes_passage.unique
  · rintro rfl
    exact l.passes_passage

theorem Parser.parses_iff {p : Parser σ ι} {out : Except StreamError (Result ι) × Parser σ ι} :
    p.Parses out ↔ p.parseOne = out := by
  constructor
  · intro h
    cases h with
    | exhausted hp => rw [parseOne, hp]
    | running hp hway => rw [parseOne, hp, Lexer.passes_iff.1 hway]
  · rintro rfl
    cases hp : p.phase with
    | exhausted => rw [parseOne, hp]; exact .exhausted hp
    | running => rw [parseOne, hp]; exact .running hp p.lexer.passes_passage

theorem Tokens.yields_iff {ts : Tokens σ ι}
    {out : Option (Except StreamError (Token ι)) × Tokens σ ι} :
    ts.Yields out ↔ ts.next = out := by
  constructor
  · intro h
    cases h with
    | finished hd => rw [next, if_pos hd]
    | parse hd hp => rw [next, if_neg (by rw [hd]; nofun), Parser.parses_iff.1 hp]
  · rintro rfl
    cases hd : ts.done with
    | false =>
      rw [next, if_neg (by rw [hd]; nofun)]
      exact .parse hd (Parser.parses_iff.2 rfl)
    | true =>
      rw [next, if_pos hd]
      exact .finished hd

end FiniteSource

end Munch
