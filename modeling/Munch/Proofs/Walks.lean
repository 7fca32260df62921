import Munch.Proofs.Lifecycle

namespace Munch

variable {σ ι : Type}

/-- A use of a parser: one call, or a walk over its tokens that is dropped after some steps. -/
inductive Use (ι : Type)
  | call (result : Except StreamError (Result ι))
  | walk (items : List (Option (Except StreamError (Token ι))))

def walked : List (Option (Except StreamError (Token ι))) → List (Except StreamError (Result ι))
  | [] => []
  | some (.ok t) :: items => .ok (.matched t) :: walked items
  | some (.error e) :: _ => [.error e]
  | none :: _ => [.ok .endOfStream]

def Use.results : Use ι → List (Except StreamError (Result ι))
  | .call result => [result]
  | .walk items => walked items

def Use.steps? : Use ι → Option Nat
  | .call _ => none
  | .walk items => some items.length

def resultOf? : Except StreamError (Outcome ι) → Option (Except StreamError (Result ι))
  | .ok (.matched t) => some (.ok (.matched t))
  | .ok (.skipped _) => none
  | .ok .ended => some (.ok .endOfStream)
  | .error e => some (.error e)

section Source

variable [Source σ Char]

inductive Tokens.Walks :
    Tokens σ ι → List (Option (Except StreamError (Token ι))) → Tokens σ ι → Prop
  | nil {ts : Tokens σ ι} : Walks ts [] ts
  | cons {ts ts' ts'' : Tokens σ ι} {item : Option (Except StreamError (Token ι))}
      {items : List (Option (Except StreamError (Token ι)))} :
      ts.Yields (item, ts') → Walks ts' items ts'' → Walks ts (item :: items) ts''

inductive Parser.Used : Parser σ ι → List (Use ι) → Parser σ ι → Prop
  | nil {p : Parser σ ι} : Used p [] p
  | call {p q r : Parser σ ι} {result : Except StreamError (Result ι)} {uses : List (Use ι)} :
      p.Parses (result, q) → Used q uses r → Used p (.call result :: uses) r
  | walk {p r : Parser σ ι} {ts : Tokens σ ι}
      {items : List (Option (Except StreamError (Token ι)))} {uses : List (Use ι)} :
      p.tokens.Walks items ts → Used ts.parser uses r → Used p (.walk items :: uses) r

inductive Parser.Called : Parser σ ι → List (Except StreamError (Result ι)) → Parser σ ι → Prop
  | nil {p : Parser σ ι} : Called p [] p
  | cons {p q r : Parser σ ι} {result : Except StreamError (Result ι)}
      {results : List (Except StreamError (Result ι))} :
      p.Parses (result, q) → Called q results r → Called p (result :: results) r

namespace Tokens

variable {ts ts' : Tokens σ ι} {item : Option (Except StreamError (Token ι))}
  {items : List (Option (Except StreamError (Token ι)))}

inductive Walking (ts : Tokens σ ι) :
    Option (Except StreamError (Token ι)) × Tokens σ ι → Prop
  | finished : ts.done = true → Walking ts (none, ts)
  | token {t : Token ι} {p : Parser σ ι} : ts.done = false →
      ts.parser.Parses (.ok (.matched t), p) → Walking ts (some (.ok t), ⟨p, false⟩)
  | ended {p : Parser σ ι} : ts.done = false → ts.parser.Parses (.ok .endOfStream, p) →
      Walking ts (none, ⟨p, true⟩)
  | failed {e : StreamError} {p : Parser σ ι} : ts.done = false →
      ts.parser.Parses (.error e, p) → Walking ts (some (.error e), ⟨p, true⟩)

theorem Yields.walking {out : Option (Except StreamError (Token ι)) × Tokens σ ι}
    (h : ts.Yields out) : ts.Walking out := by
  cases h with
  | finished hd => exact .finished hd
  | @parse out hd hparse =>
    match out with
    | (.ok (.matched t), p) => exact .token hd hparse
    | (.ok .endOfStream, p) => exact .ended hd hparse
    | (.error e, p) => exact .failed hd hparse

theorem Walks.of_done (h : ts.Walks items ts') (hd : ts.done = true) :
    ts' = ts ∧ ∀ item ∈ items, item = none := by
  induction h with
  | nil => exact ⟨rfl, nofun⟩
  | cons hy _ ih =>
    cases hy.walking with
    | finished _ =>
      obtain ⟨heq, hnone⟩ := ih hd
      exact ⟨heq, List.forall_mem_cons.2 ⟨rfl, hnone⟩⟩
    | token hd' _ => cases hd.symm.trans hd'
    | ended hd' _ => cases hd.symm.trans hd'
    | failed hd' _ => cases hd.symm.trans hd'

theorem Walks.called (h : ts.Walks items ts') (hd : ts.done = false) :
    ts.parser.Called (walked items) ts'.parser := by
  induction h with
  | nil => exact .nil
  | cons hy hrest ih =>
    cases hy.walking with
    | finished hd' => cases hd.symm.trans hd'
    | token _ hparse => exact .cons hparse (ih rfl)
    | ended _ hparse =>
      rw [(hrest.of_done rfl).1]
      exact .cons hparse .nil
    | failed _ hparse =>
      rw [(hrest.of_done rfl).1]
      exact .cons hparse .nil

theorem Yields.done (h : ts.Yields (item, ts')) (hi : ∀ t, item ≠ some (.ok t)) :
    ts'.done = true := by
  cases h.walking with
  | finished hd => exact hd
  | token _ _ => exact absurd rfl (hi _)
  | ended _ _ => rfl
  | failed _ _ => rfl

theorem Walks.eq_none (h : ts.Walks items ts')
    {before after : List (Option (Except StreamError (Token ι)))}
    (hsplit : items = before ++ item :: after) (hi : ∀ t, item ≠ some (.ok t)) :
    ∀ later ∈ after, later = none := by
  induction h generalizing before with
  | nil => cases before <;> cases hsplit
  | cons hy hrest ih =>
    cases before with
    | nil =>
      obtain ⟨rfl, rfl⟩ := List.cons.inj hsplit
      exact (hrest.of_done (hy.done hi)).2
    | cons first before => exact ih (List.cons.inj hsplit).2

theorem Walks.length_faults_le (h : ts.Walks items ts') :
    (items.filterMap fun item => (Answer.yielded item).fault?).length ≤ 1 := by
  induction h with
  | nil => exact Nat.zero_le _
  | @cons ts ts' ts'' item items hy hrest ih =>
    rw [List.filterMap_cons]
    match item with
    | none => exact ih
    | some (.ok t) => exact ih
    | some (.error e) =>
      have hnone : items.filterMap (fun item => (Answer.yielded item).fault?) = [] := by
        rw [List.filterMap_eq_nil_iff]
        intro item hitem
        rw [(hrest.of_done (hy.done nofun)).2 item hitem]
        rfl
      exact Nat.succ_le_succ (Nat.le_of_eq (congrArg List.length hnone))

theorem walks_of_done (hd : ts.done = true) (n : Nat) : ts.Walks (.replicate n none) ts := by
  induction n with
  | zero => exact .nil
  | succ n ih => exact .cons (.finished hd) ih

end Tokens

namespace Parser

variable {p q r : Parser σ ι} {results results' : List (Except StreamError (Result ι))}

theorem Parses.unique {out out' : Except StreamError (Result ι) × Parser σ ι} (h : p.Parses out)
    (h' : p.Parses out') : out = out' := by
  cases h with
  | exhausted hp =>
    cases h' with
    | exhausted _ => rfl
    | running hp' _ => cases hp.symm.trans hp'
  | running hp hway =>
    cases h' with
    | exhausted hp' => cases hp.symm.trans hp'
    | running _ hway' => rw [hway.unique hway']

theorem Called.unique (h : p.Called results q) (h' : p.Called results' r)
    (hlen : results'.length = results.length) : results' = results ∧ r = q := by
  induction h generalizing results' with
  | nil =>
    obtain rfl := List.eq_nil_of_length_eq_zero hlen
    cases h'
    exact ⟨rfl, rfl⟩
  | cons hparse _ ih =>
    cases h' with
    | nil => cases hlen
    | cons hparse' hrest' =>
      cases hparse.unique hparse'
      obtain ⟨rfl, rfl⟩ := ih hrest' (Nat.succ.inj hlen)
      exact ⟨rfl, rfl⟩

theorem Called.append (h : p.Called results q) (h' : q.Called results' r) :
    p.Called (results ++ results') r := by
  induction h with
  | nil => exact h'
  | cons hparse _ ih => exact .cons hparse (ih h')

theorem Used.called {uses : List (Use ι)} (h : p.Used uses q) :
    p.Called (uses.flatMap Use.results) q := by
  induction h with
  | nil => exact .nil
  | call hparse _ ih => exact .cons hparse ih
  | walk hwalk _ ih => exact (hwalk.called rfl).append ih

theorem Used.exists_walks {uses : List (Use ι)} (h : p.Used uses q)
    {items : List (Option (Except StreamError (Token ι)))} (hitems : .walk items ∈ uses) :
    ∃ (now : Parser σ ι) (ts : Tokens σ ι), now.tokens.Walks items ts := by
  induction h with
  | nil => cases hitems
  | call _ _ ih =>
    rcases List.mem_cons.1 hitems with heq | hitems
    · cases heq
    · exact ih hitems
  | walk hwalk _ ih =>
    rcases List.mem_cons.1 hitems with heq | hitems
    · cases heq
      exact ⟨_, _, hwalk⟩
    · exact ih hitems

theorem Parses.standing_of_end (h : p.Parses (.ok .endOfStream, q)) :
    q.standing = .exhausted := by
  generalize hout : (Except.ok Result.endOfStream, q) = out at h
  cases h with
  | exhausted hp =>
    cases hout
    exact standing_exhausted_iff.2 hp
  | @running way hp _ =>
    match way with
    | ⟨_, .ok (.matched t), _⟩ => cases hout
    | ⟨_, .ok .endOfStream, _⟩ => cases hout; rfl
    | ⟨_, .error e, _⟩ => cases hout

theorem Called.of_exhausted (h : p.Called results q) (hp : p.standing = .exhausted) : q = p := by
  induction h with
  | nil => rfl
  | cons hparse _ ih =>
    cases (parses_of_exhausted hp).1 hparse
    exact ih hp

theorem Called.standing_of_end (h : p.Called results q) (hr : .ok .endOfStream ∈ results) :
    q.standing = .exhausted := by
  induction h with
  | nil => cases hr
  | cons hparse hrest ih =>
    rcases List.mem_cons.1 hr with heq | hr
    · subst heq
      have hend := hparse.standing_of_end
      rw [hrest.of_exhausted hend]
      exact hend
    · exact ih hr

theorem Called.exists_walks (h : p.Called results q) {n : Nat} (hn : n ≤ results.length) :
    ∃ items ts, p.tokens.Walks items ts ∧ items.length = n ∧
      ∃ k ≤ n, ts.parser.Called (results.drop k) q := by
  induction h generalizing n with
  | nil =>
    obtain rfl := Nat.le_zero.1 hn
    exact ⟨[], _, .nil, rfl, 0, Nat.le_refl _, .nil⟩
  | @cons p q r result results hparse hrest ih =>
    cases n with
    | zero => exact ⟨[], _, .nil, rfl, 0, Nat.le_refl _, .cons hparse hrest⟩
    | succ n =>
      -- a walk that is over can go on for any number of steps
      have hover : ∀ item, p.tokens.Yields (item, ⟨q, true⟩) →
          ∃ items ts, p.tokens.Walks items ts ∧ items.length = n + 1 ∧
            ∃ k ≤ n + 1, ts.parser.Called ((result :: results).drop k) r := fun item hy =>
        ⟨_, _, .cons hy (Tokens.walks_of_done rfl n), by simp, 1, by omega, hrest⟩
      match result with
      | .ok (.matched t) =>
        obtain ⟨items, ts, hwalk, hlen, k, hk, hcalled⟩ := ih (Nat.le_of_succ_le_succ hn)
        exact ⟨_, ts, .cons (.parse rfl hparse) hwalk, congrArg (· + 1) hlen, k + 1,
          Nat.succ_le_succ hk, hcalled⟩
      | .ok .endOfStream =>
        have hy : p.tokens.Yields (Tokens.settle (.ok .endOfStream, q)) := .parse rfl hparse
        exact hover none hy
      | .error e =>
        have hy : p.tokens.Yields (Tokens.settle (.error e, q)) := .parse rfl hparse
        exact hover (some (.error e)) hy

theorem Called.exists_used (h : p.Called results q) {plan : List (Option Nat)}
    (hplan : (plan.map (·.getD 1)).sum ≤ results.length) :
    ∃ uses r, p.Used uses r ∧ uses.map Use.steps? = plan := by
  induction plan generalizing p results with
  | nil => exact ⟨[], p, .nil, rfl⟩
  | cons step plan ih =>
    rw [List.map_cons, List.sum_cons] at hplan
    cases step with
    | none =>
      simp only [Option.getD_none] at hplan
      cases h with
      | nil =>
        rw [List.length_nil] at hplan
        omega
      | cons hparse hrest =>
        rw [List.length_cons] at hplan
        obtain ⟨uses, r, hused, rfl⟩ := ih hrest (by omega)
        exact ⟨_, r, .call hparse hused, rfl⟩
    | some n =>
      simp only [Option.getD_some] at hplan
      obtain ⟨items, ts, hwalk, rfl, k, hk, hcalled⟩ := h.exists_walks (n := n) (by omega)
      obtain ⟨uses, r, hused, rfl⟩ := ih hcalled (by rw [List.length_drop]; omega)
      exact ⟨_, r, .walk hwalk hused, rfl⟩

end Parser

namespace Lexer

variable {l l' : Lexer σ ι}

theorem nextToken_of_ended (hl : l.Valid) (h : l.nextToken = (.ok .ended, l')) :
    l'.nextToken = (.ok .ended, l') := by
  have hstep := stepping hl
  generalize l.nextToken = out at hstep h
  cases hstep with
  | closed _ => cases h
  | waiting _ _ => cases h
  | @searched v d hp _ _ hd =>
    obtain ⟨he, rfl⟩ := Prod.mk.inj h
    obtain ⟨hwaiting, hstage⟩ := (l.grammar.answering v).ended_of_ended he
    have hopen := Stack.isOpen_of_ended hstage
    have hread : d.read = (.ok none, d) := by
      rw [hd.read_nil hopen hwaiting, if_pos hstage]
    have hrun : (Search.start l.grammar).run d = (.ok (Search.start l.grammar), d) := by
      have hviable : (Search.start l.grammar).viable ≠ [] := l.grammar.initial_ne_nil
      rw [Search.run, dif_neg hviable, hread]
    rw [nextToken, hd.isClosed_eq_false hopen, if_neg Bool.false_ne_true, hp, hrun]
    rfl

theorem Passes.series {way : Passage σ ι} (h : l.Passes way) :
    ∃ n, (Munch.series nextToken n l).1.filterMap resultOf? = [way.result] ∧
      (Munch.series nextToken n l).2 = way.lexer := by
  induction h with
  | skipped hn _ ih =>
    obtain ⟨n, hresults, hlast⟩ := ih
    refine ⟨n + 1, ?_, ?_⟩
    · rw [Munch.series, hn]
      exact hresults
    · rw [Munch.series, hn]
      exact hlast
  | matched hn => exact ⟨1, by rw [Munch.series, hn]; rfl, by rw [Munch.series, hn]; rfl⟩
  | ended hn => exact ⟨1, by rw [Munch.series, hn]; rfl, by rw [Munch.series, hn]; rfl⟩
  | failed hn => exact ⟨1, by rw [Munch.series, hn]; rfl, by rw [Munch.series, hn]; rfl⟩

theorem Passes.nextToken_of_end {way : Passage σ ι} (h : l.Passes way) (hl : l.Valid)
    (hr : way.result = .ok .endOfStream) : way.lexer.nextToken = (.ok .ended, way.lexer) := by
  induction h with
  | skipped hn _ ih => exact ih (accounts_nextToken hl hn).valid hr
  | matched _ => cases hr
  | ended hn => exact nextToken_of_ended hl hn
  | failed _ => cases hr

end Lexer

namespace Parser

variable {p q : Parser σ ι} {results : List (Except StreamError (Result ι))}

structure Settled (p : Parser σ ι) : Prop where
  lexer : p.lexer.Valid
  exhausted : p.phase = .exhausted → p.lexer.nextToken = (.ok .ended, p.lexer)

theorem Parses.series {out : Except StreamError (Result ι) × Parser σ ι} (h : p.Parses out)
    (hp : p.Settled) :
    out.2.Settled ∧ ∃ n,
      (Munch.series Lexer.nextToken n p.lexer).1.filterMap resultOf? = [out.1] ∧
        (Munch.series Lexer.nextToken n p.lexer).2 = out.2.lexer := by
  cases h with
  | exhausted hphase =>
    have hend := hp.exhausted hphase
    exact ⟨hp, 1, by rw [Munch.series, hend]; rfl, by rw [Munch.series, hend]; rfl⟩
  | @running way hphase hway =>
    rw [fst_settle, lexer_settle]
    refine ⟨⟨?_, fun he => ?_⟩, hway.series⟩
    · rw [lexer_settle]
      exact (hway.accounts hp.lexer).valid
    · rw [lexer_settle]
      exact hway.nextToken_of_end hp.lexer (phase_settle hphase he)

theorem Called.series (h : p.Called results q) (hp : p.Settled) :
    ∃ n, (Munch.series Lexer.nextToken n p.lexer).1.filterMap resultOf? = results ∧
      (Munch.series Lexer.nextToken n p.lexer).2 = q.lexer := by
  induction h with
  | nil => exact ⟨0, rfl, rfl⟩
  | cons hparse _ ih =>
    obtain ⟨hq, n, hfirst, hmid⟩ := hparse.series hp
    obtain ⟨m, hrest, hlast⟩ := ih hq
    refine ⟨n + m, ?_, ?_⟩
    · rw [series_add, List.filterMap_append, hfirst, hmid, hrest]
      rfl
    · rw [series_add, hmid, hlast]

/-- A parser over any lexer that calls can make, used by calls and by walks in any order, each walk
dropped after any number of steps. The results and the parser are those of as many calls alone, and
the results are those of the steps of the lexer without the characters dropped. A walk tells of one
error at most, and only that it is over after that or after the end. Once the end was told, every
further walk is over at once. And every mixture is possible that calls alone could make. -/
theorem used_as_called {g : Grammar ι} {s : σ} {l : Lexer σ ι} (hl : l.Reachable g s) :
    (∀ uses p, ({ lexer := l } : Parser σ ι).Used uses p →
      let results := uses.flatMap Use.results
      Called { lexer := l } results p ∧
        (∀ others q, Called { lexer := l } others q → others.length = results.length →
          others = results ∧ q = p) ∧
        (∃ n, (Munch.series Lexer.nextToken n l).1.filterMap resultOf? = results ∧
          (Munch.series Lexer.nextToken n l).2 = p.lexer) ∧
        (∀ items, .walk items ∈ uses →
          (items.filterMap fun item => (Answer.yielded item).fault?).length ≤ 1 ∧
            ∀ before item after, items = before ++ item :: after → (∀ t, item ≠ some (.ok t)) →
              ∀ later ∈ after, later = none) ∧
        (.ok .endOfStream ∈ results → p.Rests (.ok .endOfStream) none)) ∧
    ∀ plan results q, Called { lexer := l } results q →
      (plan.map (·.getD 1)).sum ≤ results.length →
        ∃ uses p, ({ lexer := l } : Parser σ ι).Used uses p ∧ uses.map Use.steps? = plan := by
  refine ⟨fun uses p h => ?_, fun plan results q h => h.exists_used⟩
  have hcalled := h.called
  refine ⟨hcalled, fun others q hothers => hcalled.unique hothers,
    hcalled.series ⟨hl.valid.2, nofun⟩, fun items hitems => ?_, fun hend => ?_⟩
  · obtain ⟨_, _, hwalk⟩ := h.exists_walks hitems
    exact ⟨hwalk.length_faults_le, fun _ _ _ hsplit hi => hwalk.eq_none hsplit hi⟩
  · have hst := hcalled.standing_of_end hend
    exact rests (fun _ => parses_of_exhausted hst) rfl

end Parser

end Source

theorem used_as_called_halfUsed :
    halfUsed.Reachable overlapping ['a', 'b', 'd', 'x'] ∧
      ∃ p, Parser.Used { lexer := halfUsed }
          [.walk [some (.ok ⟨"a", 0⟩)], .walk [], .call (.ok (.matched ⟨"bd", 2⟩)),
            .walk [none, none]] p ∧
        Parser.Called { lexer := halfUsed }
          [.ok (.matched ⟨"a", 0⟩), .ok (.matched ⟨"bd", 2⟩), .ok .endOfStream] p ∧
        p.Rests (.ok .endOfStream) none := by
  have hreach : halfUsed.Reachable overlapping ['a', 'b', 'd', 'x'] :=
    .pushBack _ (.nextToken .create)
  have hfirst : halfUsed.nextToken.1 = .ok (.matched ⟨"a", 0⟩) := by cbv
  have hsecond : halfUsed.nextToken.2.nextToken.1 = .ok (.matched ⟨"bd", 2⟩) := by cbv
  have hthird : halfUsed.nextToken.2.nextToken.2.nextToken.1 = .ok (.skipped 'x') := by cbv
  have hlast : halfUsed.nextToken.2.nextToken.2.nextToken.2.nextToken.1 = .ok .ended := by cbv
  obtain ⟨p, hused⟩ : ∃ p, Parser.Used { lexer := halfUsed }
      [.walk [some (.ok ⟨"a", 0⟩)], .walk [], .call (.ok (.matched ⟨"bd", 2⟩)),
        .walk [none, none]] p :=
    ⟨_, .walk (.cons (.parse rfl (.running rfl (.matched (Prod.ext hfirst rfl)))) .nil) <|
      .walk .nil <|
      .call (.running rfl (.matched (Prod.ext hsecond rfl))) <|
      .walk (.cons (.parse rfl (.running rfl
        (.skipped (Prod.ext hthird rfl) (.ended (Prod.ext hlast rfl)))))
          (.cons (.finished rfl) .nil)) .nil⟩
  obtain ⟨hcalled, -, -, -, hrests⟩ := (Parser.used_as_called hreach).1 _ _ hused
  exact ⟨hreach, p, hused, hcalled, hrests (by simp [Use.results, walked])⟩

end Munch
