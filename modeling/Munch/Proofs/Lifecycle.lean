import Munch.Proofs.Accounting
import Munch.Script

namespace Munch

variable {σ ι : Type}

inductive Standing
  | open
  | closed
  | exhausted
  deriving DecidableEq

def Parser.standing (p : Parser σ ι) : Standing :=
  match p.phase with
  | .exhausted => .exhausted
  | .running => if p.lexer.channel.isClosed then .closed else .open

inductive Act (ι : Type)
  | answer (a : Answer ι)
  | walk
  | close (result : Except StreamError Unit)

def Act.failure? : Act ι → Option IoError
  | .answer (.parsed (.error (.failed e))) => some e
  | .answer (.yielded (some (.error (.failed e)))) => some e
  | _ => none

/-- Where an act takes a parser. The acts left out do not occur. A closed parser answers that it is
closed, and a walk that has reported an error is over. -/
def Standing.move : Standing → Act ι → Option Standing
  | st, .walk => some st
  | .open, .answer (.parsed (.ok (.matched _))) => some .open
  | .open, .answer (.parsed (.ok .endOfStream)) => some .exhausted
  | .open, .answer (.parsed (.error (.failed _))) => some .closed
  | .open, .answer (.yielded (some (.ok _))) => some .open
  | .open, .answer (.yielded none) => some .exhausted
  | .open, .answer (.yielded (some (.error (.failed _)))) => some .closed
  | .open, .close _ => some .closed
  | .closed, .answer (.parsed (.error .closed)) => some .closed
  | .closed, .answer (.yielded (some (.error .closed))) => some .closed
  | .closed, .answer (.yielded none) => some .closed
  | .closed, .close (.ok ()) => some .closed
  | .exhausted, .answer (.parsed (.ok .endOfStream)) => some .exhausted
  | .exhausted, .answer (.yielded none) => some .exhausted
  | .exhausted, .close _ => some .exhausted
  | _, _ => none

theorem Standing.move_eq_open {st : Standing} {act : Act ι} (h : st.move act = some .open) :
    st = .open := by
  unfold move at h
  split at h <;> simp_all

theorem Standing.failures_move {st st' : Standing} {act : Act ι} (h : st.move act = some st') :
    act.failure? = none ∨ st = .open ∧ st' = .closed := by
  unfold move at h
  split at h <;> simp_all [Act.failure?]

theorem Standing.length_failures_le {st st' : Standing} {acts : List (Act ι)}
    (h : acts.foldlM move st = some st') :
    (acts.filterMap Act.failure?).length ≤ if st = .open then 1 else 0 := by
  induction acts generalizing st with
  | nil => exact Nat.zero_le _
  | cons act acts ih =>
    rw [List.foldlM_cons] at h
    obtain ⟨mid, hmid, hrest⟩ := Option.bind_eq_some_iff.1 h
    have hle := ih hrest
    rw [List.filterMap_cons]
    rcases Standing.failures_move hmid with hnone | ⟨rfl, rfl⟩
    · rw [hnone]
      by_cases ho : mid = .open
      · subst ho
        rw [Standing.move_eq_open hmid]
        exact hle
      · rw [if_neg ho] at hle
        exact Nat.le_trans hle (Nat.zero_le _)
    · rw [if_neg nofun] at hle
      rw [if_pos rfl]
      cases act.failure? with
      | none => exact Nat.le_succ_of_le hle
      | some e => exact Nat.succ_le_succ hle

theorem Channel.isClosed_close [Source σ Char] (c : Channel σ Char) :
    c.close.2.isClosed = true := by
  rw [snd_close]
  split
  · assumption
  · rfl

namespace Lexer

variable [Source σ Char] {l : Lexer σ ι}

theorem nextToken_of_closed (hc : l.channel.isClosed = true) :
    l.nextToken = (.error .closed, l) := by
  rw [nextToken, if_pos hc]

theorem passes_of_closed (hc : l.channel.isClosed = true) {way : Passage σ ι} :
    l.Passes way ↔ way = ⟨[], .error .closed, l⟩ := by
  have hpasses : l.Passes ⟨[], .error .closed, l⟩ := .failed (nextToken_of_closed hc)
  constructor
  · exact fun h => h.unique hpasses
  · rintro rfl
    exact hpasses

theorem Stepping.error_eq_failed {out : Except StreamError (Outcome ι) × Lexer σ ι}
    (h : l.Stepping out) (ho : l.channel.isClosed = false) {e : StreamError}
    (he : out.1 = .error e) : ∃ cause, e = .failed cause := by
  cases h with
  | closed hc => rw [ho] at hc; cases hc
  | waiting _ _ => cases he
  | @searched v d hp hopen hv hd =>
    cases hf : (l.grammar.ahead v).fault with
    | none => rw [Grammar.answer_of_no_fault hf] at he; cases he
    | some e' =>
      rw [Grammar.answer_of_fault hf] at he
      cases he
      exact (hopen.failed_of_scan hf).1

theorem Passes.error_eq_failed {way : Passage σ ι} (h : l.Passes way) (hl : l.Valid)
    (ho : l.channel.isClosed = false) {e : StreamError} (he : way.result = .error e) :
    ∃ cause, e = .failed cause := by
  induction h with
  | skipped hn _ ih =>
    have hacc := accounts_nextToken hl hn
    exact ih hacc.valid (hacc.isClosed_eq.2 ⟨_, rfl⟩) he
  | matched _ => cases he
  | ended _ => cases he
  | failed hn =>
    cases he
    exact (stepping hl).error_eq_failed ho (congrArg Prod.fst hn)

theorem Passes.reachable {g : Grammar ι} {s : σ} {way : Passage σ ι} (h : l.Passes way)
    (hl : l.Reachable g s) : way.lexer.Reachable g s := by
  induction h with
  | skipped hn _ ih => exact ih (hl.of_nextToken hn)
  | matched hn => exact hl.of_nextToken hn
  | ended hn => exact hl.of_nextToken hn
  | failed hn => exact hl.of_nextToken hn

theorem Stepping.drained {out : Except StreamError (Outcome ι) × Lexer σ ι} (h : l.Stepping out)
    (hl : l.channel.isClosed = true → l.channel.buffered = 0 ∧ l.pending = [])
    (hc : out.2.channel.isClosed = true) :
    out.2.channel.buffered = 0 ∧ out.2.pending = [] := by
  cases h with
  | closed _ => exact hl hc
  | waiting ho _ => cases ho.symm.trans hc
  | @searched v d hp hopen hv hd =>
    refine ⟨?_, hp⟩
    cases hf : (l.grammar.ahead v).fault with
    | none =>
      have hanswer := l.grammar.answering v
      have hopen' := (hanswer.isOpen_iff hopen).2 ⟨_, by rw [Grammar.answer_of_no_fault hf]⟩
      cases (hd.isClosed_eq_false hopen').symm.trans hc
    | some e =>
      rw [Grammar.answer_of_fault hf] at hd
      rw [hd.buffered_eq, Grammar.ahead, (hopen.failed_of_scan hf).2]
      rfl

theorem Reachable.drained {g : Grammar ι} {s : σ} (h : l.Reachable g s)
    (hc : l.channel.isClosed = true) : l.channel.buffered = 0 ∧ l.pending = [] := by
  induction h with
  | create => cases hc
  | nextToken hl ih => exact (stepping hl.valid.2).drained ih hc
  | @pushBack l t _ ih =>
    rw [Lexer.pushBack] at hc ⊢
    split at hc
    · next ho => rw [if_pos ho]; exact ih hc
    · next ho => exact absurd hc ho
  | @close l hl ih =>
    refine ⟨?_, rfl⟩
    obtain ⟨-, v, hv⟩ := hl.valid
    cases ho : l.channel.isClosed with
    | true =>
      rw [Lexer.close, Channel.close, if_pos ho]
      exact (ih ho).1
    | false =>
      have hclose := hv.close
      rw [(hv.isOpen ho).close] at hclose
      exact hclose.buffered_eq

end Lexer

namespace Parser

variable {p : Parser σ ι}

theorem standing_exhausted_iff : p.standing = .exhausted ↔ p.phase = .exhausted := by
  rw [standing]
  cases p.phase with
  | running => cases p.lexer.channel.isClosed <;> simp
  | exhausted => simp

theorem standing_closed_iff :
    p.standing = .closed ↔ p.phase = .running ∧ p.lexer.channel.isClosed = true := by
  rw [standing]
  cases p.phase with
  | running => cases p.lexer.channel.isClosed <;> simp
  | exhausted => simp

theorem standing_open_iff :
    p.standing = .open ↔ p.phase = .running ∧ p.lexer.channel.isClosed = false := by
  rw [standing]
  cases p.phase with
  | running => cases p.lexer.channel.isClosed <;> simp
  | exhausted => simp

variable [Source σ Char]

theorem parses_of_exhausted (h : p.standing = .exhausted)
    {out : Except StreamError (Result ι) × Parser σ ι} :
    p.Parses out ↔ out = (.ok .endOfStream, p) := by
  have hphase := standing_exhausted_iff.1 h
  constructor
  · intro hp
    cases hp with
    | exhausted _ => rfl
    | running hrunning _ => cases hphase.symm.trans hrunning
  · rintro rfl
    exact .exhausted hphase

theorem parses_of_closed (h : p.standing = .closed)
    {out : Except StreamError (Result ι) × Parser σ ι} :
    p.Parses out ↔ out = (.error .closed, p) := by
  obtain ⟨hphase, hclosed⟩ := standing_closed_iff.1 h
  constructor
  · intro hp
    cases hp with
    | exhausted hexhausted => cases hphase.symm.trans hexhausted
    | running _ hway => rw [(Lexer.passes_of_closed hclosed).1 hway]; rfl
  · rintro rfl
    exact .running hphase ((Lexer.passes_of_closed hclosed).2 rfl)

theorem close_of_closed (hl : p.lexer.channel.isClosed = true → p.lexer.pending = [])
    (h : p.standing = .closed) : p.close = (.ok (), p) := by
  have hclosed := (standing_closed_iff.1 h).2
  obtain ⟨⟨grammar, channel, pending⟩, phase, stats⟩ := p
  cases hl hclosed
  rw [close, Lexer.close, Channel.close, if_pos hclosed]

theorem standing_close (p : Parser σ ι) :
    p.close.2.standing = if p.standing = .exhausted then .exhausted else .closed := by
  cases hphase : p.phase with
  | exhausted =>
    rw [if_pos (standing_exhausted_iff.2 hphase)]
    exact standing_exhausted_iff.2 hphase
  | running =>
    have hne : p.standing ≠ .exhausted := by
      rw [ne_eq, standing_exhausted_iff, hphase]
      nofun
    rw [if_neg hne]
    exact standing_closed_iff.2 ⟨hphase, p.lexer.channel.isClosed_close⟩

theorem Parses.move {out : Except StreamError (Result ι) × Parser σ ι} (h : p.Parses out)
    (hp : p.lexer.Valid) : p.standing.move (.answer (.parsed out.1)) = some out.2.standing := by
  cases hst : p.standing with
  | exhausted => rw [(parses_of_exhausted hst).1 h, hst]; rfl
  | closed => rw [(parses_of_closed hst).1 h, hst]; rfl
  | «open» =>
    obtain ⟨hphase, hopen⟩ := standing_open_iff.1 hst
    cases h with
    | exhausted hexhausted => cases hphase.symm.trans hexhausted
    | @running way _ hway =>
      have hopen' := (hway.accounts hp).isClosed_eq
      have herror := fun e => hway.error_eq_failed (e := e) hp hopen
      match way with
      | ⟨skipped, .ok (.matched t), l⟩ =>
        have hstanding : (p.settle ⟨skipped, .ok (.matched t), l⟩).2.standing = .open :=
          standing_open_iff.2 ⟨hphase, hopen'.2 ⟨_, rfl⟩⟩
        rw [hstanding]
        rfl
      | ⟨skipped, .ok .endOfStream, l⟩ => rfl
      | ⟨skipped, .error e, l⟩ =>
        obtain ⟨cause, rfl⟩ := herror e rfl
        have hclosed : l.channel.isClosed = true := by
          rw [← Bool.not_eq_false]
          intro ho
          obtain ⟨r, hr⟩ := hopen'.1 ho
          cases hr
        have hstanding : (p.settle ⟨skipped, .error (.failed cause), l⟩).2.standing = .closed :=
          standing_closed_iff.2 ⟨hphase, hclosed⟩
        rw [hstanding]
        rfl

theorem Parses.reachable {g : Grammar ι} {s : σ}
    {out : Except StreamError (Result ι) × Parser σ ι} (h : p.Parses out)
    (hp : p.lexer.Reachable g s) : out.2.lexer.Reachable g s := by
  cases h with
  | exhausted _ => exact hp
  | running _ hway =>
    rw [lexer_settle]
    exact hway.reachable hp

end Parser

theorem Standing.move_settle {st st' : Standing}
    {out : Except StreamError (Result ι) × Parser σ ι}
    (h : st.move (.answer (.parsed out.1)) = some st') :
    st.move (.answer (.yielded (Tokens.settle out).1)) = some st' := by
  match out with
  | (.ok (.matched _), _) => cases st <;> exact h
  | (.ok .endOfStream, _) =>
    cases st with
    | «open» => exact h
    | closed => cases h
    | exhausted => exact h
  | (.error e, _) => cases st <;> cases e <;> exact h

namespace Tokens

variable [Source σ Char] {ts ts' : Tokens σ ι}

inductive Does : Tokens σ ι → Act ι → Tokens σ ι → Prop
  | parseOne {ts : Tokens σ ι} {result : Except StreamError (Result ι)} {p : Parser σ ι} :
      ts.parser.Parses (result, p) → Does ts (.answer (.parsed result)) { ts with parser := p }
  | next {ts ts' : Tokens σ ι} {item : Option (Except StreamError (Token ι))} :
      ts.Yields (item, ts') → Does ts (.answer (.yielded item)) ts'
  | walk {ts : Tokens σ ι} : Does ts .walk ts.parser.tokens
  | close {ts : Tokens σ ι} :
      Does ts (.close ts.parser.close.1) { ts with parser := ts.parser.close.2 }

def Sound (ts : Tokens σ ι) : Prop := ts.done = true → ts.parser.standing ≠ .open

omit [Source σ Char] in
theorem sound_settle {st : Standing} {out : Except StreamError (Result ι) × Parser σ ι}
    (h : st.move (.answer (.parsed out.1)) = some out.2.standing) : (settle out).2.Sound := by
  intro hd ho
  rw [parser_settle] at ho
  rw [ho] at h
  obtain rfl := Standing.move_eq_open h
  match out with
  | (.ok (.matched _), _) => cases hd
  | (.ok .endOfStream, _) => cases h
  | (.error e, _) => cases e <;> cases h

theorem Yields.move {out : Option (Except StreamError (Token ι)) × Tokens σ ι}
    (h : ts.Yields out) (hp : ts.parser.lexer.Valid) (hs : ts.Sound) :
    ts.parser.standing.move (.answer (.yielded out.1)) = some out.2.parser.standing ∧
      out.2.Sound := by
  cases h with
  | finished hd =>
    refine ⟨?_, hs⟩
    cases hst : ts.parser.standing with
    | «open» => exact absurd hst (hs hd)
    | closed => rfl
    | exhausted => rfl
  | parse _ hparse =>
    have hmove := hparse.move hp
    rw [parser_settle]
    exact ⟨Standing.move_settle hmove, sound_settle hmove⟩

theorem Yields.reachable {g : Grammar ι} {s : σ}
    {out : Option (Except StreamError (Token ι)) × Tokens σ ι} (h : ts.Yields out)
    (hp : ts.parser.lexer.Reachable g s) : out.2.parser.lexer.Reachable g s := by
  cases h with
  | finished _ => exact hp
  | parse _ hparse =>
    rw [parser_settle]
    exact hparse.reachable hp

variable {g : Grammar ι} {s : σ} {act : Act ι}

theorem Does.reachable (h : ts.Does act ts') (hp : ts.parser.lexer.Reachable g s) :
    ts'.parser.lexer.Reachable g s := by
  cases h with
  | parseOne hparse => exact hparse.reachable hp
  | next hyield => exact hyield.reachable hp
  | walk => exact hp
  | close => exact hp.close

theorem Does.move (h : ts.Does act ts') (hp : ts.parser.lexer.Reachable g s) (hs : ts.Sound) :
    ts.parser.standing.move act = some ts'.parser.standing ∧ ts'.Sound := by
  cases h with
  | parseOne hparse =>
    have hmove := hparse.move hp.valid.2
    refine ⟨hmove, fun hd ho => hs hd ?_⟩
    rw [ho] at hmove
    exact Standing.move_eq_open hmove
  | next hyield => exact hyield.move hp.valid.2 hs
  | walk => exact ⟨rfl, nofun⟩
  | close =>
    have hstanding := ts.parser.standing_close
    have hsound : Sound { ts with parser := ts.parser.close.2 } := by
      intro _ ho
      rw [hstanding] at ho
      split at ho <;> cases ho
    refine ⟨?_, hsound⟩
    rw [hstanding]
    cases hst : ts.parser.standing with
    | «open» => rfl
    | exhausted => rfl
    | closed => rw [Parser.close_of_closed (fun hc => (hp.drained hc).2) hst]; rfl

theorem Yields.parser_eq {out : Option (Except StreamError (Token ι)) × Tokens σ ι}
    (h : ts.Yields out) (hsame : ∀ out, ts.parser.Parses out → out.2 = ts.parser) :
    out.2.parser = ts.parser := by
  cases h with
  | finished _ => rfl
  | parse _ hparse =>
    rw [parser_settle]
    exact hsame _ hparse

theorem Does.parser_eq (h : ts.Does act ts')
    (hsame : ∀ out, ts.parser.Parses out → out.2 = ts.parser) :
    ts'.parser = ts.parser ∨ ts'.parser = ts.parser.close.2 := by
  cases h with
  | parseOne hparse => exact .inl (hsame _ hparse)
  | next hyield => exact .inl (hyield.parser_eq hsame)
  | walk => exact .inl rfl
  | close => exact .inr rfl

theorem Does.of_closed (h : ts.Does act ts') (hp : ts.parser.lexer.Reachable g s)
    (hst : ts.parser.standing = .closed) : ts'.parser = ts.parser := by
  have hsame : ∀ out, ts.parser.Parses out → out.2 = ts.parser :=
    fun _ hparse => congrArg Prod.snd ((Parser.parses_of_closed hst).1 hparse)
  rcases h.parser_eq hsame with heq | heq
  · exact heq
  · rw [heq, Parser.close_of_closed (fun hc => (hp.drained hc).2) hst]

theorem Does.of_exhausted (h : ts.Does act ts') (hst : ts.parser.standing = .exhausted) :
    ts'.parser.standing = .exhausted ∧ ts'.parser.stats = ts.parser.stats := by
  have hsame : ∀ out, ts.parser.Parses out → out.2 = ts.parser :=
    fun _ hparse => congrArg Prod.snd ((Parser.parses_of_exhausted hst).1 hparse)
  rcases h.parser_eq hsame with heq | heq
  · rw [heq]
    exact ⟨hst, rfl⟩
  · rw [heq, Parser.standing_close, if_pos hst]
    exact ⟨rfl, rfl⟩

end Tokens

inductive Life [Source σ Char] : Tokens σ ι → List (Act ι) → Tokens σ ι → Prop
  | nil {ts : Tokens σ ι} : Life ts [] ts
  | cons {ts ts' ts'' : Tokens σ ι} {act : Act ι} {acts : List (Act ι)} :
      ts.Does act ts' → Life ts' acts ts'' → Life ts (act :: acts) ts''

namespace Life

variable [Source σ Char] {ts ts' : Tokens σ ι} {g : Grammar ι} {s : σ} {acts : List (Act ι)}

theorem preserves {P : Tokens σ ι → Prop} (h : Life ts acts ts')
    (hact : ∀ {ts act ts'}, P ts → Tokens.Does ts act ts' → P ts') (hp : P ts) : P ts' := by
  induction h with
  | nil => exact hp
  | cons hfirst _ ih => exact ih (hact hp hfirst)

theorem reachable (h : Life ts acts ts') (hp : ts.parser.lexer.Reachable g s) :
    ts'.parser.lexer.Reachable g s :=
  h.preserves (P := fun ts => ts.parser.lexer.Reachable g s) (fun hp hact => hact.reachable hp) hp

theorem foldlM_move (h : Life ts acts ts') (hp : ts.parser.lexer.Reachable g s)
    (hs : ts.Sound) : acts.foldlM Standing.move ts.parser.standing = some ts'.parser.standing := by
  induction h with
  | nil => rfl
  | cons hact _ ih =>
    obtain ⟨hmove, hs⟩ := hact.move hp hs
    rw [List.foldlM_cons, hmove]
    exact ih (hact.reachable hp) hs

theorem of_closed (h : Life ts acts ts') (hp : ts.parser.lexer.Reachable g s)
    (hst : ts.parser.standing = .closed) : ts'.parser = ts.parser := by
  refine h.preserves (P := fun now => now.parser = ts.parser) ?_ rfl
  intro now act next hsame hact
  rw [← hsame] at hp hst ⊢
  exact hact.of_closed hp hst

theorem of_exhausted (h : Life ts acts ts') (hst : ts.parser.standing = .exhausted) :
    ts'.parser.standing = .exhausted ∧ ts'.parser.stats = ts.parser.stats := by
  refine h.preserves
    (P := fun now => now.parser.standing = .exhausted ∧ now.parser.stats = ts.parser.stats)
    ?_ ⟨hst, rfl⟩
  intro now act next ⟨hnow, hsame⟩ hact
  obtain ⟨hnext, hstats⟩ := hact.of_exhausted hnow
  exact ⟨hnext, hstats.trans hsame⟩

end Life

namespace Parser

variable [Source σ Char]

structure Rests (p : Parser σ ι) (result : Except StreamError (Result ι))
    (item : Option (Except StreamError (Token ι))) : Prop where
  parses (out) : p.Parses out ↔ out = (result, p)
  yields (out) : p.tokens.Yields out ↔ out = (item, ⟨p, true⟩)
  done (out) : Tokens.Yields ⟨p, true⟩ out ↔ out = (none, ⟨p, true⟩)

theorem rests {p : Parser σ ι} {result : Except StreamError (Result ι)}
    {item : Option (Except StreamError (Token ι))}
    (h : ∀ out, p.Parses out ↔ out = (result, p))
    (hover : Tokens.settle (result, p) = (item, ⟨p, true⟩)) : p.Rests result item where
  parses := h
  yields out := by
    constructor
    · intro hyield
      cases hyield with
      | finished hd => cases hd
      | parse _ hparse => rw [(h _).1 hparse, hover]
    · rintro rfl
      rw [← hover]
      exact .parse rfl ((h _).2 rfl)
  done out := by
    constructor
    · intro hyield
      cases hyield with
      | finished _ => rfl
      | parse hd _ => cases hd
    · rintro rfl
      exact .finished rfl

/-- A parser over any lexer that calls can make, open or closed. Whatever is done with it, it goes
where the table says, and it reports at most one failure. -/
theorem lifecycle {g : Grammar ι} {s : σ} {l : Lexer σ ι} (hl : l.Reachable g s)
    {acts : List (Act ι)} {ts : Tokens σ ι} (h : Life (tokens { lexer := l }) acts ts) :
    let p := ts.parser
    acts.foldlM Standing.move (if l.channel.isClosed then .closed else .open) =
        some p.standing ∧
      (acts.filterMap Act.failure?).length ≤ 1 ∧
      (p.lexer.channel.isClosed = true → p.lexer.channel.buffered = 0 ∧ p.lexer.pending = []) ∧
      (p.standing = .exhausted → p.Rests (.ok .endOfStream) none ∧
        ∀ later ts', Life ts later ts' →
          ts'.parser.standing = .exhausted ∧ ts'.parser.stats = p.stats) ∧
      (p.standing = .closed → p.Rests (.error .closed) (some (.error .closed)) ∧
        ∀ later ts', Life ts later ts' → ts'.parser = p) := by
  have hstart : ({ lexer := l } : Parser σ ι).standing =
      if l.channel.isClosed then .closed else .open := rfl
  have hmove := h.foldlM_move hl nofun
  have hreach := h.reachable hl
  rw [tokens, hstart] at hmove
  refine ⟨hmove, ?_, hreach.drained, fun hst => ⟨?_, ?_⟩, fun hst => ⟨?_, ?_⟩⟩
  · exact Nat.le_trans (Standing.length_failures_le hmove) (by split <;> decide)
  · exact rests (fun _ => parses_of_exhausted hst) rfl
  · exact fun _ _ hlater => hlater.of_exhausted hst
  · exact rests (fun _ => parses_of_closed hst) rfl
  · exact fun _ _ hlater => hlater.of_closed hreach hst

def shortLived : Script where
  steps := [.units ['a', 'x'], .failure ⟨.timedOut, "late"⟩]

/-- The failure comes while a walk drops characters. The walk is over then, and a new one says that
the parser is closed. -/
theorem lifecycle_shortLived :
    (Lexer.create overlapping shortLived).Reachable overlapping shortLived ∧
      ∃ ts, Life (tokens { lexer := Lexer.create overlapping shortLived })
          [.answer (.parsed (.ok (.matched ⟨"a", 0⟩))), .walk,
            .answer (.yielded (some (.error (.failed ⟨.timedOut, "late"⟩)))),
            .answer (.yielded none)] ts ∧
        ts.parser.standing = .closed ∧ ts.parser.lexer.channel.buffered = 0 ∧
        ∀ out, ts.parser.tokens.Yields out ↔
          out = (some (.error .closed), ⟨ts.parser, true⟩) := by
  have hreach : (Lexer.create overlapping shortLived).Reachable overlapping shortLived := .create
  have hfirst : (Lexer.create overlapping shortLived).nextToken.1 =
      .ok (.matched ⟨"a", 0⟩) := by cbv
  have hsecond : (Lexer.create overlapping shortLived).nextToken.2.nextToken.1 =
      .ok (.skipped 'x') := by cbv
  have hlast : (Lexer.create overlapping shortLived).nextToken.2.nextToken.2.nextToken.1 =
      .error (.failed ⟨.timedOut, "late"⟩) := by cbv
  have hlife : Life (tokens { lexer := Lexer.create overlapping shortLived }) _ _ :=
    .cons (.parseOne (.running rfl (.matched (Prod.ext hfirst rfl)))) <| .cons .walk <|
      .cons (.next (.parse rfl (.running rfl
        (.skipped (Prod.ext hsecond rfl) (.failed (Prod.ext hlast rfl)))))) <|
      .cons (.next (.finished rfl)) .nil
  obtain ⟨hmove, -, hdrained, -, hclosed⟩ := lifecycle hreach hlife
  have hst := (Option.some.inj hmove).symm
  exact ⟨hreach, _, hlife, hst, (hdrained (standing_closed_iff.1 hst).2).1, (hclosed hst).1.yields⟩

end Parser

end Munch
