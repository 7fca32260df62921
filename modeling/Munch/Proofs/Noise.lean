import Munch.Noise

namespace Munch

namespace Source

variable {σ υ : Type} [FiniteSource σ υ] {s : σ} {us ws : List υ}

theorem drainFrom_eq (us : List υ) (s : σ) :
    drainFrom us s =
      match Source.next s with
      | (.unit u, t) => drainFrom (u :: us) t
      | (.ended, t) => (us.reverse, none, t)
      | (.failed e, t) => (us.reverse, some e, t) := by
  rw [drainFrom.eq_def]
  split <;> next h => rw [h]

theorem drainFrom_of_delivers (h : Delivers s ws .ended) (us : List υ) :
    ∃ t, drainFrom us s = (us.reverse ++ ws, none, t) := by
  generalize hstop : (Reply.ended : Reply υ) = stop at h
  induction h generalizing us with
  | @unit s s' u ws stop hnext _ ih =>
    obtain ⟨t, ht⟩ := ih (u :: us) hstop
    refine ⟨t, ?_⟩
    rw [drainFrom_eq, hnext]
    simp only [ht, List.reverse_cons, List.append_assoc, List.singleton_append]
  | @ended s s' hnext =>
    refine ⟨s', ?_⟩
    rw [drainFrom_eq, hnext, List.append_nil]
  | failed _ => cases hstop

theorem drain_of_delivers (h : Delivers s ws .ended) : ∃ t, drain s = (ws, none, t) :=
  drainFrom_of_delivers h []

end Source

namespace Noise

variable {γ : Type} [Generator γ] {n : Noise γ}

theorem block_of_lt {generator : γ} (h : (Generator.draw 30 generator).1 < 6) :
    block generator =
      (['a', 'b', 'c', 'd', 'e', 'f'].take ((Generator.draw 30 generator).1 + 1),
        (Generator.draw 30 generator).2) := by
  rw [block]
  exact if_pos h

theorem block_of_le {generator : γ} (h : 6 ≤ (Generator.draw 30 generator).1) :
    block generator =
      ([.ofNat ('a'.toNat + (Generator.draw 26 (Generator.draw 30 generator).2).1)],
        (Generator.draw 26 (Generator.draw 30 generator).2).2) := by
  rw [block]
  exact if_neg (Nat.not_lt.2 h)

theorem block_ne_nil (generator : γ) : (block generator).1 ≠ [] := by
  rcases Nat.lt_or_ge (Generator.draw 30 generator).1 6 with h | h
  · rw [block_of_lt h]
    exact List.cons_ne_nil _ _
  · rw [block_of_le h]
    exact List.cons_ne_nil _ _

theorem refill_of_nil (h : n.pending = []) :
    n.refill = { n with pending := (block n.generator).1, generator := (block n.generator).2 } := by
  rw [refill, h]

theorem refill_of_cons {c : Char} {cs : List Char} (h : n.pending = c :: cs) : n.refill = n := by
  rw [refill, h]

theorem exists_pending_refill (n : Noise γ) :
    ∃ c cs, n.refill.pending = c :: cs ∧ n.refill.closed = n.closed := by
  cases hp : n.pending with
  | nil =>
    obtain ⟨c, cs, hblock⟩ := List.exists_cons_of_ne_nil (block_ne_nil n.generator)
    rw [refill_of_nil hp]
    exact ⟨c, cs, hblock, rfl⟩
  | cons c cs =>
    rw [refill_of_cons hp]
    exact ⟨c, cs, hp, rfl⟩

theorem next_of_zero (ho : n.closed = false) (hz : n.remaining = 0) : next n = (.ended, n) := by
  rw [next, ho, if_neg Bool.false_ne_true, if_pos hz]

theorem next_of_refill {k : Nat} (ho : n.closed = false) (hk : n.remaining = k + 1) {c : Char}
    {cs : List Char} (hp : n.refill.pending = c :: cs) :
    next n = (.unit c, { n.refill with remaining := k, pending := cs }) := by
  rw [next, ho, if_neg Bool.false_ne_true, if_neg (by omega)]
  simp only [hp, remaining_refill, hk, Nat.add_sub_cancel, List.tail_cons]

theorem next_of_succ {k : Nat} (ho : n.closed = false) (hk : n.remaining = k + 1) :
    ∃ c m, next n = (.unit c, m) ∧ m.closed = false ∧ m.remaining = k := by
  obtain ⟨c, cs, hp, hclosed⟩ := n.exists_pending_refill
  exact ⟨c, _, next_of_refill ho hk hp, hclosed.trans ho, rfl⟩

theorem exists_delivers (n : Noise γ) (ho : n.closed = false) :
    ∃ ws, ws.length = n.remaining ∧ Delivers n ws .ended := by
  induction hk : n.remaining generalizing n with
  | zero => exact ⟨[], rfl, .ended (next_of_zero ho hk)⟩
  | succ k ih =>
    obtain ⟨c, m, hnext, hopen, hm⟩ := next_of_succ ho hk
    obtain ⟨ws, hlength, hdelivers⟩ := ih m hopen hm
    exact ⟨c :: ws, congrArg Nat.succ hlength, .unit hnext hdelivers⟩

end Noise

end Munch
