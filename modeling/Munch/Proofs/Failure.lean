import Mathlib.Tactic.IntervalCases
import Munch.Proofs.Step
import Munch.Script

namespace Munch

variable {σ ι : Type} [Source σ Char]

namespace Grammar

variable {g : Grammar ι} {v : Stack σ Char} {n : Nat} {r : List Char} {e : StreamError}

theorem answer_of_undecided (h : v.Shows (r.length + 1) r (some e)) (hu : g.Undecided r) :
    (g.answer v).1 = .error e ∧ ∃ f, (g.answer v).2.stage = .closed f := by
  have hlook := lookahead_of_undecided hu
  have hdepth : g.depth v = r.length + 1 :=
    (agree_of_shows h (Nat.le_of_eq hlook)).1.trans hlook
  have hf : (g.ahead v).fault = some e := by rw [ahead, hdepth, h.fault_eq]
  rw [answer_of_fault hf]
  exact ⟨rfl, Stack.closed_scan hf⟩

theorem series_answer_of_failure (h : v.Shows (r.length + 1) r (some e))
    (hd : ∀ m < n, ¬ g.Undecided (g.rest^[m] r)) (hu : g.Undecided (g.rest^[n] r)) (k : Nat) :
    (series g.answer (n + (k + 1)) v).1 =
      (g.lexing n r).map .ok ++ .error e :: .replicate k (.error .closed) := by
  obtain ⟨hanswers, hlast⟩ := series_answer_of_clear n h fun m hm => .inl (hd m hm)
  obtain ⟨hanswer, f, hclosed⟩ := answer_of_undecided hlast hu
  rw [series_add, hanswers, series, hanswer, series_of_fixed (answer_closed hclosed)]

end Grammar

namespace Lexer

/-- The next step reads `n` units, one by one. Then it unreads some of them and commits. -/
def ReadsAhead (l : Lexer σ ι) (n : Nat) : Prop :=
  ∃ s c surplus d, (Search.start l.grammar).run l.channel = (.ok s, c) ∧
    l.channel.Reads s.text.reverse c ∧ s.text.length = n ∧
    c.unread surplus = (.ok (), d) ∧ l.nextToken.2 = { l with channel := d.commit }

variable {l : Lexer σ ι} {g : Grammar ι} {v : Stack σ Char} {r : List Char} {e : StreamError}

theorem readsAhead_of_decided (h : l.Refines g v) (hv : v.Shows (r.length + 1) r (some e))
    (hd : ¬ g.Undecided r) : l.ReadsAhead (g.lookahead r) := by
  have hle := Grammar.lookahead_le_length hd
  have hdepth : g.depth v = g.lookahead r :=
    (Grammar.agree_of_shows hv (Nat.le_succ_of_le hle)).1
  have hf : (g.ahead v).fault = none := by
    rw [Grammar.ahead, hdepth]
    exact hv.no_fault hle
  have hlen : (g.ahead v).units.length = g.depth v := by
    rw [Grammar.ahead, hdepth, Stack.scan_units_take (Nat.le_succ_of_le hle), hv.units_eq,
      List.length_take_of_le hle]
  have hu : (g.ahead v).units ≠ [] := List.ne_nil_of_length_pos (hlen ▸ g.depth_pos v)
  obtain ⟨c, surplus, d, hrun, hreads, hunread, hstep, -⟩ :=
    nextToken_of_no_fault h hv.isOpen hf hu
  refine ⟨Search.after g (g.ahead v).units, c, surplus, d, ?_, ?_, ?_, hunread, ?_⟩
  · rw [h.grammar_eq, hrun]
  · rw [Search.text_after, List.reverse_reverse]
    exact hreads hlen
  · rw [Search.text_after, List.length_reverse, hlen, hdepth]
  · rw [hstep]

/-- A new lexer over a source that delivers `w` and then fails yields the lexing of `w` up to the
first place where more text could complete a literal. Less than the longest literal is lost there.
Every step before it reads just what it takes, and is the same whatever follows `w`. -/
theorem answers_of_failure (g : Grammar ι) {s : σ} {w : List Char} {e : IoError}
    (h : Delivers s w (.failed e)) :
    ∃ n, (∀ m < n, ¬ g.Undecided (g.rest^[m] w)) ∧ g.Undecided (g.rest^[n] w) ∧
      (∀ k, (series nextToken (n + (k + 1)) (create g s)).1 =
        (g.lexing n w).map .ok ++ .error (.failed e) :: .replicate k (.error .closed)) ∧
      (g.lexing n w).flatMap Outcome.text ++ g.rest^[n] w = w ∧
      (g.rest^[n] w).length < g.maxLength ∧
      (∀ {τ : Type} [Source τ Char] {t : τ}, Begins t w →
        (series nextToken n (create g t)).1 = (g.lexing n w).map .ok) ∧
      ∀ m < n, (series nextToken m (create g s)).2.ReadsAhead (g.lookahead (g.rest^[m] w)) := by
  obtain ⟨n, hd, hu⟩ := g.exists_undecided w
  have hshows := Stack.shows_of_delivers h
  refine ⟨n, hd, hu, ?_, g.texts_append_rest n w, Grammar.length_lt_of_undecided hu, ?_, ?_⟩
  · intro k
    rw [((Refines.create g s).series _).1]
    exact Grammar.series_answer_of_failure hshows hd hu k
  · intro τ _ t ht
    rw [((Refines.create g t).series n).1]
    have hclear : ∀ m < n, g.Clear (g.rest^[m] w) 0 none := fun m hm => .inl (hd m hm)
    exact (Grammar.series_answer_of_clear n (Stack.shows_of_begins ht) hclear).1
  · intro m hm
    have hclear : ∀ i < m, g.Clear (g.rest^[i] w) 1 (some (.failed e)) :=
      fun i hi => .inl (hd i (Nat.lt_trans hi hm))
    have hlast := (Grammar.series_answer_of_clear m hshows hclear).2
    exact readsAhead_of_decided ((Refines.create g s).series m).2 hlast (hd m hm)

end Lexer

/-- Behind `ab` a `c` could follow, so the failure takes `a` with it. -/
theorem answers_overlapping_failure :
    Delivers (σ := Script)
        { steps := [.units ['a', 'b', 'x', 'a', 'b'], .failure ⟨.brokenPipe, "gone"⟩] }
        ['a', 'b', 'x', 'a', 'b'] (.failed ⟨.brokenPipe, "gone"⟩) ∧
      (series Lexer.nextToken 5 (Lexer.create overlapping (σ := Script)
        { steps := [.units ['a', 'b', 'x', 'a', 'b'], .failure ⟨.brokenPipe, "gone"⟩] })).1 =
        [.ok (.matched ⟨"a", 0⟩), .ok (.skipped 'b'), .ok (.skipped 'x'),
          .error (.failed ⟨.brokenPipe, "gone"⟩), .error .closed] := by
  have hdelivers : Delivers (σ := Script)
      { steps := [.units ['a', 'b', 'x', 'a', 'b'], .failure ⟨.brokenPipe, "gone"⟩] }
      ['a', 'b', 'x', 'a', 'b'] (.failed ⟨.brokenPipe, "gone"⟩) :=
    .unit rfl (.unit rfl (.unit rfl (.unit rfl (.unit rfl (.failed rfl)))))
  refine ⟨hdelivers, ?_⟩
  obtain ⟨n, hd, hu, hanswers, -⟩ := Lexer.answers_of_failure overlapping hdelivers
  have hn : n = 3 := by
    rcases Nat.lt_trichotomy n 3 with hlt | heq | hgt
    · interval_cases n
      · exact absurd hu (by decide)
      · exact absurd hu (by decide)
      · exact absurd hu (by decide)
    · exact heq
    · exact absurd (by decide) (hd 3 hgt)
  subst hn
  exact hanswers 1

end Munch
