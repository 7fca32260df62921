import Mathlib
import Munch.Proofs.Parsing
import Munch.Proofs.Step

namespace Munch

variable {σ ι : Type}

/-- The units held or given out, the units pulled, and whether the stream is closed. -/
structure Ledger where
  units : Nat
  pulled : Nat
  closed : Bool

/-- The second ledger accounts for the units of the first and those pulled since. Where the stream
was closed in between, up to `limit` of them may be missing. -/
structure Ledger.Balances (a b : Ledger) (limit : Nat) : Prop where
  pulled_le : a.pulled ≤ b.pulled
  units_le : b.units + a.pulled ≤ a.units + b.pulled
  le_units : a.units + b.pulled ≤ b.units + a.pulled + limit
  units_eq : a.closed = true ∨ b.closed = false → b.units + a.pulled = a.units + b.pulled
  closed_of : a.closed = true → b.closed = true

namespace Ledger.Balances

variable {a b c : Ledger} {limit : Nat}

theorem of_eq (hp : a.pulled ≤ b.pulled) (hu : b.units + a.pulled = a.units + b.pulled)
    (hc : a.closed = true → b.closed = true) : a.Balances b limit where
  pulled_le := hp
  units_le := Nat.le_of_eq hu
  le_units := Nat.le_add_right_of_le (Nat.le_of_eq hu.symm)
  units_eq := fun _ => hu
  closed_of := hc

theorem refl (a : Ledger) (limit : Nat) : a.Balances a limit := .of_eq (Nat.le_refl _) rfl id

/-- The stream is closed once at most, so only one of two steps can lose anything. -/
theorem trans (hab : a.Balances b limit) (hbc : b.Balances c limit) : a.Balances c limit := by
  have hpulled := Nat.le_trans hab.pulled_le hbc.pulled_le
  have hclosed := fun h => hbc.closed_of (hab.closed_of h)
  cases hb : b.closed with
  | false =>
    have hu := hab.units_eq (.inr hb)
    have hle := hbc.units_le
    have hge := hbc.le_units
    refine ⟨hpulled, by omega, by omega, ?_, hclosed⟩
    rintro (ha | hc)
    · rw [hab.closed_of ha] at hb
      cases hb
    · have := hbc.units_eq (.inr hc)
      omega
  | true =>
    have hu := hbc.units_eq (.inl hb)
    have hle := hab.units_le
    have hge := hab.le_units
    refine ⟨hpulled, by omega, by omega, ?_, hclosed⟩
    rintro (ha | hc)
    · have := hab.units_eq (.inl ha)
      omega
    · rw [hbc.closed_of hb] at hc
      cases hc

end Ledger.Balances

def textOf : Except StreamError (Outcome ι) → List Char
  | .ok outcome => outcome.text
  | .error _ => []

def Channel.ledger (given : Nat) (c : Channel σ Char) : Ledger :=
  ⟨given + c.buffered, c.pulled, c.isClosed⟩

namespace Lexer

def pendingUnits (l : Lexer σ ι) : Nat := (l.pending.map Token.length).sum

def ledger (given : Nat) (l : Lexer σ ι) : Ledger := l.channel.ledger (given + l.pendingUnits)

def Valid (l : Lexer σ ι) : Prop := ∃ v, l.channel.Refines v (l.grammar.maxLength - 1) 0

end Lexer

theorem Answer.token?_settle (out : Except StreamError (Result ι) × Parser σ ι) :
    Answer.token? (.yielded (Tokens.settle out).1) = Answer.token? (.parsed out.1) := by
  match out with
  | (.ok (.matched t), p) => rfl
  | (.ok .endOfStream, p) => rfl
  | (.error e, p) => rfl

theorem Answer.fault?_settle (out : Except StreamError (Result ι) × Parser σ ι) :
    Answer.fault? (.yielded (Tokens.settle out).1) = Answer.fault? (.parsed out.1) := by
  match out with
  | (.ok (.matched t), p) => rfl
  | (.ok .endOfStream, p) => rfl
  | (.error e, p) => rfl

theorem Tokens.parser_settle (out : Except StreamError (Result ι) × Parser σ ι) :
    (Tokens.settle out).2.parser = out.2 := by
  match out with
  | (.ok (.matched t), p) => rfl
  | (.ok .endOfStream, p) => rfl
  | (.error e, p) => rfl

variable [Source σ Char]

namespace Grammar

variable {g : Grammar ι} {v : Stack σ Char}
  {out : Except StreamError (Outcome ι) × Stack σ Char}

theorem Answering.pulled_le (h : g.Answering v out) : v.pulled ≤ out.2.pulled := by
  cases h with
  | failed _ => exact Stack.pulled_le_scan _ v
  | given _ => exact Stack.pulled_le_scan _ v

theorem Answering.isOpen_iff (h : g.Answering v out) (ho : v.IsOpen) :
    out.2.IsOpen ↔ ∃ o, out.1 = .ok o := by
  cases h with
  | failed hf =>
    obtain ⟨f, hclosed⟩ := Stack.closed_scan hf
    constructor
    · exact fun hopen => absurd hclosed (hopen f)
    · rintro ⟨o, heq⟩
      cases heq
  | given hf => exact ⟨fun _ => ⟨_, rfl⟩, fun _ => ho.peek hf⟩

theorem Answering.length_eq (h : g.Answering v out) :
    ∃ lost, lost ≤ g.maxLength - 1 ∧ ((∃ o, out.1 = .ok o) → lost = 0) ∧
      out.2.waiting.length + (textOf out.1).length + lost + v.pulled =
        v.waiting.length + out.2.pulled := by
  have hlen := Stack.length_scan (g.depth v) v
  have hdepth := g.depth_le_maxLength v
  cases h with
  | failed hf =>
    have hlt := Stack.length_scan_lt hf
    refine ⟨(g.ahead v).units.length, ?_, ?_, ?_⟩
    · exact Nat.le_sub_one_of_lt (Nat.lt_of_lt_of_le hlt hdepth)
    · rintro ⟨o, heq⟩
      cases heq
    · rw [textOf, List.length_nil, Nat.add_zero]
      exact hlen
  | given hf =>
    have hkept : (g.first (g.ahead v).units).text.length ≤ (v.scan (g.depth v)).units.length :=
      (g.text_first_isPrefix (g.ahead v).units).length_le
    refine ⟨0, Nat.zero_le _, fun _ => rfl, ?_⟩
    simp only [textOf, Stack.peek, Stack.length_waiting_drop, Stack.length_waiting_unread,
      Stack.pulled_drop, Stack.pulled_unread]
    omega

theorem Answering.ended_of_ended (h : g.Answering v out) (he : out.1 = .ok .ended) :
    out.2.waiting = [] ∧ out.2.stage = .ended := by
  cases h with
  | failed hf => cases he
  | given hf =>
    have hu : (g.ahead v).units = [] := first_eq_ended_iff.1 (Except.ok.inj he)
    obtain ⟨hrest, hstage⟩ :
        (g.ahead v).rest.waiting = [] ∧ (g.ahead v).rest.stage = .ended := by
      obtain ⟨n, hn⟩ := Nat.exists_eq_add_of_le' (g.depth_pos v)
      rw [ahead, hn] at hu hf ⊢
      exact Stack.ended_of_scan_nil hu hf
    refine ⟨?_, hstage⟩
    rw [hu]
    rw [ahead] at hu hrest
    simp [Stack.drop, Stack.peek, Stack.unread, hu, hrest]

theorem Answering.balances {c d : Channel σ Char} {m n m' n' : Nat} (h : g.Answering v out)
    (ho : v.IsOpen) (hc : c.Refines v m n) (hd : d.Refines out.2 m' n') (given : Nat) :
    (c.ledger given).Balances (d.ledger (given + (textOf out.1).length)) (g.maxLength - 1) := by
  obtain ⟨lost, hle, hnone, hlen⟩ := h.length_eq
  have hopen : c.isClosed = false := hc.isClosed_eq_false ho
  simp only [Channel.ledger, hc.pulled_eq, hd.pulled_eq, hc.buffered_eq, hd.buffered_eq, hopen]
  refine ⟨h.pulled_le, by dsimp only; omega, by dsimp only; omega, ?_, fun hclosed => ?_⟩
  · rintro (hclosed | hopen')
    · cases hclosed
    · have hok := (h.isOpen_iff ho).1 (hd.isOpen hopen')
      have := hnone hok
      dsimp only
      omega
  · cases hclosed

end Grammar

namespace Lexer

inductive Stepping (l : Lexer σ ι) : Except StreamError (Outcome ι) × Lexer σ ι → Prop
  | closed : l.channel.isClosed = true → Stepping l (.error .closed, l)
  | waiting {t : Token ι} {pending : List (Token ι)} : l.channel.isClosed = false →
      l.pending = t :: pending → Stepping l (.ok (.matched t), { l with pending })
  | searched {v : Stack σ Char} {d : Channel σ Char} : l.pending = [] → v.IsOpen →
      l.channel.Refines v (l.grammar.maxLength - 1) 0 →
      d.Refines (l.grammar.answer v).2 (l.grammar.maxLength - 1) 0 →
        Stepping l ((l.grammar.answer v).1, { l with channel := d })

theorem stepping {l : Lexer σ ι} (h : l.Valid) : l.Stepping l.nextToken := by
  obtain ⟨v, hv⟩ := h
  cases hc : l.channel.isClosed with
  | true =>
    rw [nextToken, if_pos hc]
    exact .closed hc
  | false =>
    cases hp : l.pending with
    | cons t pending =>
      rw [nextToken, hc, if_neg Bool.false_ne_true, hp]
      exact .waiting hc hp
    | nil =>
      obtain ⟨d, hstep, hd⟩ := nextToken_eq ⟨rfl, hp, hv⟩
      rw [hstep]
      exact .searched hp (hv.isOpen hc) hv hd

structure Accounts (l l' : Lexer σ ι) (a : Except StreamError (Outcome ι)) : Prop where
  grammar_eq : l'.grammar = l.grammar
  valid : l'.Valid
  balances (given : Nat) :
    (l.ledger given).Balances (l'.ledger (given + (textOf a).length)) (l.grammar.maxLength - 1)
  isClosed_eq : l'.channel.isClosed = false ↔ ∃ o, a = .ok o
  nothing_left : a = .ok .ended → l'.channel.buffered = 0 ∧ l'.pending = []

theorem Stepping.accounts {l : Lexer σ ι} {out : Except StreamError (Outcome ι) × Lexer σ ι}
    (h : l.Stepping out) (hl : l.Valid) : l.Accounts out.2 out.1 := by
  cases h with
  | closed hc =>
    exact ⟨rfl, hl, fun _ => .refl _ _, by simp [hc], fun he => by cases he⟩
  | @waiting t pending hc hp =>
    refine ⟨rfl, hl, fun given => .of_eq (Nat.le_refl _) ?_ id, by simp [hc],
      fun he => by cases he⟩
    simp only [ledger, Channel.ledger, pendingUnits, hp, List.map_cons, List.sum_cons, textOf,
      Outcome.text, String.length_toList, Token.length]
    omega
  | @searched v d hp ho hv hd =>
    have hanswer := l.grammar.answering v
    refine ⟨rfl, ⟨_, hd⟩, ?_, ?_, ?_⟩
    · intro given
      simp only [ledger, pendingUnits, hp, List.map_nil, List.sum_nil, Nat.add_zero]
      exact hanswer.balances ho hv hd given
    · exact ⟨fun hc => (hanswer.isOpen_iff ho).1 (hd.isOpen hc),
        fun hok => hd.isClosed_eq_false ((hanswer.isOpen_iff ho).2 hok)⟩
    · intro he
      refine ⟨?_, hp⟩
      rw [hd.buffered_eq, (hanswer.ended_of_ended he).1]
      rfl

theorem accounts_nextToken {l l' : Lexer σ ι} {a : Except StreamError (Outcome ι)} (h : l.Valid)
    (hn : l.nextToken = (a, l')) : l.Accounts l' a := by
  have hacc := (stepping h).accounts h
  rwa [hn] at hacc

theorem Reachable.valid {g : Grammar ι} {s : σ} {l : Lexer σ ι} (h : l.Reachable g s) :
    l.grammar = g ∧ l.Valid := by
  induction h with
  | create => exact ⟨rfl, _, .create s _⟩
  | nextToken _ ih =>
    have hacc := (stepping ih.2).accounts ih.2
    exact ⟨hacc.grammar_eq.trans ih.1, hacc.valid⟩
  | @pushBack l t _ ih =>
    rw [Lexer.pushBack]
    split
    · exact ih
    · exact ih
  | @close l _ ih =>
    obtain ⟨hg, v, hv⟩ := ih
    exact ⟨hg, _, hv.close⟩

end Lexer

def Passage.units (way : Passage σ ι) : Nat :=
  way.skipped.length + match way.result with
    | .ok (.matched t) => t.length
    | _ => 0

structure Passage.Accounts (way : Passage σ ι) (l : Lexer σ ι) : Prop where
  grammar_eq : way.lexer.grammar = l.grammar
  valid : way.lexer.Valid
  balances (given : Nat) :
    (l.ledger given).Balances (way.lexer.ledger (given + way.units)) (l.grammar.maxLength - 1)
  isClosed_eq : way.lexer.channel.isClosed = false ↔ ∃ r, way.result = .ok r
  nothing_left : way.result = .ok .endOfStream →
    way.lexer.channel.buffered = 0 ∧ way.lexer.pending = []

theorem Lexer.Passes.accounts {l : Lexer σ ι} {way : Passage σ ι} (h : l.Passes way)
    (hl : l.Valid) : way.Accounts l := by
  induction h with
  | @skipped l l' c way hn _ ih =>
    have hstep := Lexer.accounts_nextToken hl hn
    have hway := ih hstep.valid
    refine ⟨hway.grammar_eq.trans hstep.grammar_eq, hway.valid, ?_, hway.isClosed_eq,
      hway.nothing_left⟩
    intro given
    have hrest := hway.balances (given + 1)
    rw [hstep.grammar_eq] at hrest
    have hunits : given + Passage.units { way with skipped := c :: way.skipped } =
        given + 1 + way.units := by
      simp only [Passage.units, List.length_cons]
      omega
    rw [hunits]
    exact (hstep.balances given).trans hrest
  | @matched l l' t hn =>
    have hstep := Lexer.accounts_nextToken hl hn
    refine ⟨hstep.grammar_eq, hstep.valid, ?_, by simpa using hstep.isClosed_eq,
      fun he => by cases he⟩
    intro given
    have hunits : Passage.units (⟨[], .ok (.matched t), l'⟩ : Passage σ ι) =
        (textOf (.ok (.matched t))).length := by
      simp [Passage.units, textOf, Outcome.text, Token.length, String.length_toList]
    rw [hunits]
    exact hstep.balances given
  | ended hn =>
    have hstep := Lexer.accounts_nextToken hl hn
    exact ⟨hstep.grammar_eq, hstep.valid, hstep.balances, by simpa using hstep.isClosed_eq,
      fun _ => hstep.nothing_left rfl⟩
  | failed hn =>
    have hstep := Lexer.accounts_nextToken hl hn
    exact ⟨hstep.grammar_eq, hstep.valid, hstep.balances, by simpa using hstep.isClosed_eq,
      fun he => by cases he⟩

namespace Parser

omit [Source σ Char]

theorem fst_settle (p : Parser σ ι) (way : Passage σ ι) : (p.settle way).1 = way.result := by
  match way with
  | ⟨_, .ok (.matched t), _⟩ => rfl
  | ⟨_, .ok .endOfStream, _⟩ => rfl
  | ⟨_, .error e, _⟩ => rfl

theorem lexer_settle (p : Parser σ ι) (way : Passage σ ι) :
    (p.settle way).2.lexer = way.lexer := by
  match way with
  | ⟨_, .ok (.matched t), _⟩ => rfl
  | ⟨_, .ok .endOfStream, _⟩ => rfl
  | ⟨_, .error e, _⟩ => rfl

theorem phase_settle {p : Parser σ ι} {way : Passage σ ι} (h : p.phase = .running)
    (he : (p.settle way).2.phase = .exhausted) : way.result = .ok .endOfStream := by
  match way with
  | ⟨_, .ok (.matched t), _⟩ => cases h.symm.trans he
  | ⟨_, .ok .endOfStream, _⟩ => rfl
  | ⟨_, .error e, _⟩ => cases h.symm.trans he

theorem consumedUnits_settle (p : Parser σ ι) (way : Passage σ ι) :
    (p.settle way).2.stats.consumedUnits = p.stats.consumedUnits + way.units := by
  match way with
  | ⟨_, .ok (.matched t), _⟩ => simp only [settle, Stats.consumedUnits, Passage.units]; omega
  | ⟨_, .ok .endOfStream, _⟩ => simp only [settle, Stats.consumedUnits, Passage.units]; omega
  | ⟨_, .error e, _⟩ => simp only [settle, Stats.consumedUnits, Passage.units]; omega

theorem tokens_settle (p : Parser σ ι) (way : Passage σ ι) :
    (p.settle way).2.stats.tokens =
      p.stats.tokens + ([Answer.parsed way.result].filterMap Answer.token?).length := by
  match way with
  | ⟨_, .ok (.matched t), _⟩ => rfl
  | ⟨_, .ok .endOfStream, _⟩ => rfl
  | ⟨_, .error e, _⟩ => rfl

theorem matchedUnits_settle (p : Parser σ ι) (way : Passage σ ι) :
    (p.settle way).2.stats.matchedUnits = p.stats.matchedUnits +
      (([Answer.parsed way.result].filterMap Answer.token?).map Token.length).sum := by
  match way with
  | ⟨_, .ok (.matched t), _⟩ => rfl
  | ⟨_, .ok .endOfStream, _⟩ => rfl
  | ⟨_, .error e, _⟩ => rfl

def ledger (p : Parser σ ι) : Ledger := p.lexer.ledger p.stats.consumedUnits

structure Valid (p : Parser σ ι) : Prop where
  lexer : p.lexer.Valid
  exhausted : p.phase = .exhausted →
    p.lexer.channel.buffered = 0 ∧ p.lexer.pending = [] ∧ p.lexer.channel.isClosed = false

structure Accounts (p p' : Parser σ ι) (answers : List (Answer ι)) : Prop where
  grammar_eq : p'.lexer.grammar = p.lexer.grammar
  valid : p'.Valid
  balances : p.ledger.Balances p'.ledger (p.lexer.grammar.maxLength - 1)
  tokens_eq : p'.stats.tokens = p.stats.tokens + (answers.filterMap Answer.token?).length
  matchedUnits_eq : p'.stats.matchedUnits =
    p.stats.matchedUnits + ((answers.filterMap Answer.token?).map Token.length).sum
  open_of : (∀ a ∈ answers, a.fault? = none) → p.lexer.channel.isClosed = false →
    p'.lexer.channel.isClosed = false

theorem Accounts.refl {p : Parser σ ι} (h : p.Valid) : p.Accounts p [] :=
  ⟨rfl, h, .refl _ _, rfl, rfl, fun _ => id⟩

theorem Accounts.trans {p p' p'' : Parser σ ι} {as bs : List (Answer ι)}
    (h : p.Accounts p' as) (h' : p'.Accounts p'' bs) : p.Accounts p'' (as ++ bs) where
  grammar_eq := h'.grammar_eq.trans h.grammar_eq
  valid := h'.valid
  balances := by
    have hrest := h'.balances
    rw [h.grammar_eq] at hrest
    exact h.balances.trans hrest
  tokens_eq := by
    rw [h'.tokens_eq, h.tokens_eq, List.filterMap_append, List.length_append, Nat.add_assoc]
  matchedUnits_eq := by
    rw [h'.matchedUnits_eq, h.matchedUnits_eq, List.filterMap_append, List.map_append,
      List.sum_append, Nat.add_assoc]
  open_of := by
    intro hok ho
    have hok : (∀ a ∈ as, a.fault? = none) ∧ ∀ b ∈ bs, b.fault? = none :=
      List.forall_mem_append.1 hok
    exact h'.open_of hok.2 (h.open_of hok.1 ho)

theorem Accounts.congr {p p' : Parser σ ι} {a b : Answer ι} (h : p.Accounts p' [a])
    (ht : b.token? = a.token?) (hf : b.fault? = a.fault?) : p.Accounts p' [b] where
  grammar_eq := h.grammar_eq
  valid := h.valid
  balances := h.balances
  tokens_eq := by
    rw [h.tokens_eq, List.filterMap_cons, List.filterMap_cons, ht]
  matchedUnits_eq := by
    rw [h.matchedUnits_eq, List.filterMap_cons, List.filterMap_cons, ht]
  open_of := by
    have hopen := h.open_of
    rw [List.forall_mem_singleton] at hopen ⊢
    rwa [hf]

variable [Source σ Char]

theorem Parses.accounts {p : Parser σ ι} {out : Except StreamError (Result ι) × Parser σ ι}
    (h : p.Parses out) (hp : p.Valid) : p.Accounts out.2 [.parsed out.1] := by
  cases h with
  | exhausted hphase => exact ⟨rfl, hp, .refl _ _, rfl, rfl, fun _ => id⟩
  | @running way hphase hway =>
    have hacc := hway.accounts hp.lexer
    rw [fst_settle]
    refine {
      grammar_eq := by rw [lexer_settle]; exact hacc.grammar_eq
      valid := ⟨by rw [lexer_settle]; exact hacc.valid, ?_⟩
      balances := by
        rw [ledger, ledger, lexer_settle, consumedUnits_settle]
        exact hacc.balances _
      tokens_eq := p.tokens_settle way
      matchedUnits_eq := p.matchedUnits_settle way
      open_of := ?_ }
    · intro he
      have hend := phase_settle hphase he
      obtain ⟨hbuffered, hpending⟩ := hacc.nothing_left hend
      rw [lexer_settle]
      exact ⟨hbuffered, hpending, hacc.isClosed_eq.2 ⟨_, hend⟩⟩
    · intro hok _
      rw [lexer_settle]
      apply hacc.isClosed_eq.2
      cases hr : way.result with
      | ok r => exact ⟨r, rfl⟩
      | error e =>
        have hfault := hok _ List.mem_cons_self
        rw [hr] at hfault
        cases hfault

end Parser

theorem Tokens.Yields.accounts {ts : Tokens σ ι}
    {out : Option (Except StreamError (Token ι)) × Tokens σ ι} (h : ts.Yields out)
    (hp : ts.parser.Valid) : ts.parser.Accounts out.2.parser [.yielded out.1] := by
  cases h with
  | finished _ => exact ⟨rfl, hp, .refl _ _, rfl, rfl, fun _ => id⟩
  | @parse out _ hparse =>
    rw [parser_settle]
    exact (hparse.accounts hp).congr (Answer.token?_settle out) (Answer.fault?_settle out)

theorem Calls.accounts {ts ts' : Tokens σ ι} {answers : List (Answer ι)}
    (h : Calls ts answers ts') (hp : ts.parser.Valid) :
    ts.parser.Accounts ts'.parser answers := by
  induction h with
  | nil => exact .refl hp
  | parseOne hparse _ ih =>
    have hstep := hparse.accounts hp
    exact hstep.trans (ih hstep.valid)
  | tokens _ ih => exact ih hp
  | next hyield _ ih =>
    have hstep := hyield.accounts hp
    exact hstep.trans (ih hstep.valid)

/-- Calls of a parser over a reachable open lexer. The characters consumed, buffered and waiting
in tokens are those that were buffered and waiting at first and those pulled since, unless a call
failed: then less than the longest literal is missing. -/
theorem Parser.units_of_calls {g : Grammar ι} {s : σ} {l : Lexer σ ι}
    (hl : l.Reachable g s) (ho : l.channel.isClosed = false) {answers : List (Answer ι)}
    {ts : Tokens σ ι} (h : Calls (Parser.tokens { lexer := l }) answers ts) :
    let p := ts.parser
    let left := p.stats.consumedUnits + p.lexer.channel.buffered + p.lexer.pendingUnits
    let right := l.channel.buffered + l.pendingUnits + (p.lexer.channel.pulled - l.channel.pulled)
    l.channel.pulled ≤ p.lexer.channel.pulled ∧
      ((∀ a ∈ answers, a.fault? = none) → left = right) ∧
      left ≤ right ∧ right ≤ left + (g.maxLength - 1) ∧
      p.stats.tokens = (answers.filterMap Answer.token?).length ∧
      p.stats.matchedUnits = ((answers.filterMap Answer.token?).map Token.length).sum ∧
      (p.phase = .exhausted →
        p.lexer.channel.buffered = 0 ∧ p.lexer.pending = [] ∧ p.stats.consumedUnits = right) := by
  obtain ⟨rfl, hvalid⟩ := hl.valid
  have hacc := h.accounts ⟨hvalid, nofun⟩
  obtain ⟨hpulled, hle, hge, heq, -⟩ := hacc.balances
  have hnone : (Parser.tokens { lexer := l }).parser.stats.consumedUnits = 0 := rfl
  simp only [Parser.ledger, Lexer.ledger, Channel.ledger, hnone] at hpulled hle hge heq
  simp only [Parser.tokens] at hpulled hle hge heq
  have hright : ts.parser.lexer.channel.isClosed = false →
      ts.parser.stats.consumedUnits + ts.parser.lexer.channel.buffered +
          ts.parser.lexer.pendingUnits =
        l.channel.buffered + l.pendingUnits +
          (ts.parser.lexer.channel.pulled - l.channel.pulled) := by
    intro hopen
    have := heq (.inr hopen)
    omega
  refine ⟨hpulled, fun hok => hright (hacc.open_of hok ho), by omega, by omega, ?_, ?_, ?_⟩
  · rw [hacc.tokens_eq]
    exact Nat.zero_add _
  · rw [hacc.matchedUnits_eq]
    exact Nat.zero_add _
  · intro he
    obtain ⟨hbuffered, hpending, hopen⟩ := hacc.valid.exhausted he
    have hall := hright hopen
    rw [hbuffered, Lexer.pendingUnits, hpending] at hall
    exact ⟨hbuffered, hpending, hall⟩

def halfUsed : Lexer (List Char) Nat :=
  ((Lexer.create overlapping ['a', 'b', 'd', 'x']).nextToken.2.pushBack ⟨"a", 0⟩).2

theorem units_of_calls_halfUsed :
    halfUsed.Reachable overlapping ['a', 'b', 'd', 'x'] ∧ halfUsed.channel.isClosed = false ∧
      ∃ ts, Calls (Parser.tokens { lexer := halfUsed })
          [.parsed (.ok (.matched ⟨"a", 0⟩)), .yielded (some (.ok ⟨"bd", 2⟩)), .yielded none] ts ∧
        ts.parser.phase = .exhausted ∧
        ts.parser.stats.consumedUnits = 2 + 1 + (ts.parser.lexer.channel.pulled - 3) := by
  have hreach : halfUsed.Reachable overlapping ['a', 'b', 'd', 'x'] :=
    .pushBack _ (.nextToken .create)
  have hopen : halfUsed.channel.isClosed = false := by cbv
  have hfirst : halfUsed.nextToken.1 = .ok (.matched ⟨"a", 0⟩) := by cbv
  have hsecond : halfUsed.nextToken.2.nextToken.1 = .ok (.matched ⟨"bd", 2⟩) := by cbv
  have hthird : halfUsed.nextToken.2.nextToken.2.nextToken.1 = .ok (.skipped 'x') := by cbv
  have hlast : halfUsed.nextToken.2.nextToken.2.nextToken.2.nextToken.1 = .ok .ended := by cbv
  have hcalls : Calls (Parser.tokens { lexer := halfUsed }) _ _ :=
    .parseOne (.running rfl (.matched (Prod.ext hfirst rfl)))
      (.next (.parse rfl (.running rfl (.matched (Prod.ext hsecond rfl))))
        (.next (.parse rfl (.running rfl
          (.skipped (Prod.ext hthird rfl) (.ended (Prod.ext hlast rfl))))) .nil))
  refine ⟨hreach, hopen, _, hcalls, rfl, ?_⟩
  have hbuffered : halfUsed.channel.buffered = 2 := by cbv
  have hpending : halfUsed.pendingUnits = 1 := by cbv
  have hpulled : halfUsed.channel.pulled = 3 := by cbv
  rw [← hbuffered, ← hpending, ← hpulled]
  exact ((Parser.units_of_calls hreach hopen hcalls).2.2.2.2.2.2 rfl).2.2

end Munch
