import Munch.Proofs.Search

namespace Munch

variable {σ ι α β γ : Type}

def series (step : α → β × α) : Nat → α → List β × α
  | 0, a => ([], a)
  | n + 1, a => ((step a).1 :: (series step n (step a).2).1, (series step n (step a).2).2)

theorem series_add (step : α → β × α) (n m : Nat) (a : α) :
    series step (n + m) a =
      ((series step n a).1 ++ (series step m (series step n a).2).1,
        (series step m (series step n a).2).2) := by
  induction n generalizing a with
  | zero => rw [Nat.zero_add]; rfl
  | succ n ih => rw [Nat.succ_add, series, ih]; rfl

theorem series_of_fixed {step : α → β × α} {a : α} {b : β} (h : step a = (b, a)) (n : Nat) :
    series step n a = (.replicate n b, a) := by
  induction n with
  | zero => rfl
  | succ n ih => rw [series, h, ih]; rfl

theorem series_related {f : α → β × α} {g : γ → β × γ} {R : α → γ → Prop}
    (h : ∀ a c, R a c → (f a).1 = (g c).1 ∧ R (f a).2 (g c).2) (n : Nat) {a : α} {c : γ}
    (hac : R a c) :
    (series f n a).1 = (series g n c).1 ∧ R (series f n a).2 (series g n c).2 := by
  induction n generalizing a c with
  | zero => exact ⟨rfl, hac⟩
  | succ n ih =>
    obtain ⟨hanswer, hnext⟩ := h a c hac
    obtain ⟨hanswers, hlast⟩ := ih hnext
    exact ⟨congrArg₂ List.cons hanswer hanswers, hlast⟩

variable [Source σ Char]

namespace Grammar

def window (g : Grammar ι) (v : Stack σ Char) : List Char := (v.scan g.maxLength).units

def depth (g : Grammar ι) (v : Stack σ Char) : Nat := g.lookahead (g.window v)

def ahead (g : Grammar ι) (v : Stack σ Char) : Scan σ Char := v.scan (g.depth v)

def answer (g : Grammar ι) (v : Stack σ Char) : Except StreamError (Outcome ι) × Stack σ Char :=
  match (g.ahead v).fault with
  | some e => (.error e, (g.ahead v).rest)
  | none =>
    let outcome := g.first (g.ahead v).units
    (.ok outcome, (v.peek (g.depth v)).drop outcome.text.length)

inductive Answering (g : Grammar ι) (v : Stack σ Char) :
    Except StreamError (Outcome ι) × Stack σ Char → Prop
  | failed {e : StreamError} :
      (g.ahead v).fault = some e → Answering g v (.error e, (g.ahead v).rest)
  | given : (g.ahead v).fault = none →
      Answering g v (.ok (g.first (g.ahead v).units),
        (v.peek (g.depth v)).drop (g.first (g.ahead v).units).text.length)

theorem depth_pos (g : Grammar ι) (v : Stack σ Char) : 0 < g.depth v := g.lookahead_pos _

theorem depth_le_maxLength (g : Grammar ι) (v : Stack σ Char) : g.depth v ≤ g.maxLength :=
  g.lookahead_le_maxLength _

theorem first_ahead (g : Grammar ι) (v : Stack σ Char) :
    g.first (g.ahead v).units = g.first (g.window v) := by
  rw [ahead, Stack.scan_units_take (g.depth_le_maxLength v), depth, ← window,
    first_take_lookahead]

theorem answer_of_fault {g : Grammar ι} {v : Stack σ Char} {e : StreamError}
    (h : (g.ahead v).fault = some e) : g.answer v = (.error e, (g.ahead v).rest) := by
  rw [answer, h]

theorem answer_of_no_fault {g : Grammar ι} {v : Stack σ Char} (h : (g.ahead v).fault = none) :
    g.answer v = (.ok (g.first (g.ahead v).units),
      (v.peek (g.depth v)).drop (g.first (g.ahead v).units).text.length) := by
  rw [answer, h]

theorem answering (g : Grammar ι) (v : Stack σ Char) : g.Answering v (g.answer v) := by
  cases h : (g.ahead v).fault with
  | some e => rw [answer_of_fault h]; exact .failed h
  | none => rw [answer_of_no_fault h]; exact .given h

theorem ahead_closed {g : Grammar ι} {v : Stack σ Char} {f : Option IoError}
    (h : v.stage = .closed f) : g.ahead v = ⟨[], some .closed, v⟩ := by
  obtain ⟨n, hn⟩ := Nat.exists_eq_add_of_le' (g.depth_pos v)
  rw [ahead, hn, Stack.scan_of_error (Stack.read_closed h)]

theorem answer_closed {g : Grammar ι} {v : Stack σ Char} {f : Option IoError}
    (h : v.stage = .closed f) : g.answer v = (.error .closed, v) := by
  rw [answer_of_fault (e := .closed) (by rw [ahead_closed h]), ahead_closed h]

variable {g : Grammar ι} {v : Stack σ Char} {n j : Nat} {r : List Char} {fault : Option StreamError}

theorem agree_of_shows (h : v.Shows n r fault) (hn : g.lookahead r ≤ n) :
    g.depth v = g.lookahead r ∧ g.first (g.window v) = g.first r := by
  rw [depth, window]
  rcases Nat.le_total g.maxLength n with hle | hle
  · -- the stack shows all that a literal can reach
    rw [Stack.scan_units_take hle, h.units_eq]
    exact ⟨lookahead_take (Nat.le_refl _), first_take (Nat.le_refl _)⟩
  · rcases Nat.lt_or_eq_of_le h.length_le with hlt | heq
    · -- nothing comes behind `r`
      rw [Stack.scan_of_length_lt (h.units_eq.symm ▸ hlt) hle, h.units_eq]
      exact ⟨rfl, rfl⟩
    · -- `r` is decided, whatever comes behind
      have htake := Stack.scan_units_take hle v
      rw [h.units_eq] at htake
      have happ : (v.scan g.maxLength).units = r ++ (v.scan g.maxLength).units.drop n := by
        conv => lhs; rw [← List.take_append_drop n (v.scan g.maxLength).units, ← htake]
      rw [happ]
      rw [← heq] at hn
      exact ⟨lookahead_append hn _, first_append hn _⟩

/-- The text shown tells what comes first if it is decided, or if its end is seen. -/
def Clear (g : Grammar ι) (r : List Char) (j : Nat) (fault : Option StreamError) : Prop :=
  ¬ g.Undecided r ∨ fault = none ∧ 0 < j

theorem lookahead_le_of_clear (hc : g.Clear r j fault) : g.lookahead r ≤ r.length + j := by
  rcases hc with hd | ⟨-, hj⟩
  · exact Nat.le_add_right_of_le (lookahead_le_length hd)
  · exact Nat.le_trans (g.lookahead_le_succ r) (Nat.add_le_add_left hj _)

theorem no_fault_of_clear (h : v.Shows (r.length + j) r fault) (hc : g.Clear r j fault) :
    (v.scan (g.lookahead r)).fault = none := by
  rcases hc with hd | ⟨rfl, hj⟩
  · exact h.no_fault (lookahead_le_length hd)
  · exact Stack.scan_fault_mono (lookahead_le_of_clear (.inr ⟨rfl, hj⟩)) h.fault_eq

theorem answer_of_clear (h : v.Shows (r.length + j) r fault) (hc : g.Clear r j fault) :
    (g.answer v).1 = .ok (g.first r) ∧
      (g.answer v).2.Shows ((g.rest r).length + j) (g.rest r) fault := by
  have hn := lookahead_le_of_clear hc
  have hf := no_fault_of_clear h hc
  have hk := (g.text_first_isPrefix r).length_le
  obtain ⟨hdepth, hfirst⟩ := agree_of_shows h hn
  rw [answer_of_no_fault (by rw [ahead, hdepth, hf]), first_ahead, hdepth, hfirst, length_rest,
    ← Nat.sub_add_comm hk]
  exact ⟨rfl, h.drop_peek hf hn (g.length_text_first_le r)⟩

theorem series_answer_of_clear (n : Nat) (h : v.Shows (r.length + j) r fault)
    (hc : ∀ m < n, g.Clear (g.rest^[m] r) j fault) :
    (series g.answer n v).1 = (g.lexing n r).map .ok ∧
      (series g.answer n v).2.Shows ((g.rest^[n] r).length + j) (g.rest^[n] r) fault := by
  induction n generalizing v r with
  | zero => exact ⟨rfl, h⟩
  | succ n ih =>
    obtain ⟨hanswer, hnext⟩ := answer_of_clear h (hc 0 (Nat.succ_pos n))
    obtain ⟨hanswers, hlast⟩ := ih hnext fun m hm => hc (m + 1) (Nat.succ_lt_succ hm)
    rw [series, lexing, List.map_cons, hanswer, hanswers]
    exact ⟨rfl, hlast⟩

end Grammar

/-- A lexer that has no token to hand out first and stands before the stack `v`. -/
structure Lexer.Refines (l : Lexer σ ι) (g : Grammar ι) (v : Stack σ Char) : Prop where
  grammar_eq : l.grammar = g
  pending_eq : l.pending = []
  channel : l.channel.Refines v (g.maxLength - 1) 0

namespace Lexer

omit [Source σ Char] in
theorem Refines.create (g : Grammar ι) (source : σ) :
    (Lexer.create g source).Refines g (.ofSource source) :=
  ⟨rfl, rfl, .create source _⟩

variable {l : Lexer σ ι} {g : Grammar ι} {v : Stack σ Char} {c : Channel σ Char}

theorem run_start (h : c.Refines v (g.maxLength - 1) 0) :
    ∃ d, (Search.start g).run c = ((g.ahead v).answer (Search.after g), d) ∧
      d.Refines (g.ahead v).rest (g.maxLength - 1) ((g.ahead v).granted 0) ∧
      ((g.ahead v).units.length = g.depth v → c.Reads (g.ahead v).units d) := by
  have hrun := Search.run_refines h (.start g) (Search.length_rest_start g)
  rwa [Search.lookahead_start] at hrun

theorem unread_surplus {k : Nat} (hf : (g.ahead v).fault = none) (ho : v.IsOpen)
    (hw : v.waiting.length ≤ g.maxLength - 1)
    (hc : c.Refines (g.ahead v).rest (g.maxLength - 1) (g.ahead v).units.length)
    (hpos : 0 < k) (hk : k ≤ (g.ahead v).units.length) :
    ∃ d, c.unread ((g.ahead v).units.drop k).reverse = (.ok (), d) ∧
      d.Refines ((v.peek (g.depth v)).drop k) (g.maxLength - 1) 0 := by
  have hlen : (g.ahead v).units.length ≤ g.depth v := Stack.length_scan_le _ v
  have hdepth := g.depth_le_maxLength v
  have hwait : (g.ahead v).rest.waiting.length = v.waiting.length - g.depth v := by
    rw [Grammar.ahead, Stack.waiting_scan hf, List.length_drop]
  have hsurplus : ((g.ahead v).units.drop k).reverse.length = (g.ahead v).units.length - k := by
    rw [List.length_reverse, List.length_drop]
  have hread : ((g.ahead v).units.drop k).reverse.length ≤ (g.ahead v).units.length := by
    rw [hsurplus]
    exact Nat.sub_le _ _
  have hroom : ((g.ahead v).units.drop k).reverse.length + (g.ahead v).rest.waiting.length ≤
      g.maxLength - 1 := by
    rw [hsurplus, hwait]
    omega
  obtain ⟨d, hu, href⟩ := hc.unread (ho.scan hf) hread hroom
  have hpeek : (v.peek (g.depth v)).drop k = (g.ahead v).rest.unread ((g.ahead v).units.drop k) :=
    Stack.drop_unread hk _
  rw [List.reverse_reverse] at href
  rw [hpeek]
  exact ⟨d, hu, href.mono (Nat.zero_le _)⟩

theorem nextToken_of_no_fault (h : l.Refines g v) (ho : v.IsOpen)
    (hf : (g.ahead v).fault = none) (hu : (g.ahead v).units ≠ []) :
    ∃ c surplus d, (Search.start g).run l.channel = (.ok (Search.after g (g.ahead v).units), c) ∧
      ((g.ahead v).units.length = g.depth v → l.channel.Reads (g.ahead v).units c) ∧
      c.unread surplus = (.ok (), d) ∧
      l.nextToken = (.ok (g.first (g.ahead v).units), { l with channel := d.commit }) ∧
      d.Refines (g.answer v).2 (g.maxLength - 1) 0 := by
  obtain ⟨rfl, hp, hc⟩ := h
  obtain ⟨c, hrun, hread, hreads⟩ := run_start hc
  simp only [Scan.answer, Scan.granted, hf, Nat.zero_add] at hrun hread
  have hroom : v.waiting.length ≤ l.grammar.maxLength - 1 := Nat.le_of_add_left_le hc.room
  have hkept : (l.grammar.first (l.grammar.ahead v).units).text.length ≤
      (l.grammar.ahead v).units.length := (Grammar.text_first_isPrefix _ _).length_le
  have hpos := List.length_pos_iff.2 (l.grammar.text_first_ne_nil hu)
  obtain ⟨d, hunread, hd⟩ := unread_surplus hf ho hroom hread hpos hkept
  refine ⟨c, _, d, hrun, hreads, hunread, ?_, ?_⟩
  · rw [nextToken, hc.isClosed_eq_false ho, if_neg Bool.false_ne_true, hp, hrun]
    simp only [Search.verdict_after _ hu, Search.surplus_after, hunread]
  · rw [Grammar.answer_of_no_fault hf]
    exact hd

theorem nextToken_eq (h : l.Refines g v) :
    ∃ d, l.nextToken = ((g.answer v).1, { l with channel := d }) ∧
      d.Refines (g.answer v).2 (g.maxLength - 1) 0 := by
  by_cases hclosed : l.channel.isClosed = true
  · obtain ⟨f, hf⟩ := h.channel.isClosed_iff.1 hclosed
    rw [nextToken, if_pos hclosed, Grammar.answer_closed hf]
    exact ⟨l.channel, rfl, h.channel⟩
  have ho : v.IsOpen := fun f hf => hclosed (h.channel.isClosed_iff.2 ⟨f, hf⟩)
  obtain ⟨d, hrun, hd, -⟩ := run_start h.channel
  cases hf : (g.ahead v).fault with
  | some e =>
    simp only [Scan.answer, Scan.granted, hf] at hrun hd
    rw [nextToken, if_neg hclosed, h.pending_eq, h.grammar_eq, hrun, Grammar.answer_of_fault hf]
    exact ⟨d, rfl, hd⟩
  | none =>
    by_cases hu : (g.ahead v).units = []
    · simp only [Scan.answer, Scan.granted, hf, hu] at hrun hd
      rw [nextToken, if_neg hclosed, h.pending_eq, h.grammar_eq, hrun,
        Grammar.answer_of_no_fault hf, hu]
      have hpeek : v.peek (g.depth v) = (g.ahead v).rest := by
        rw [Stack.peek]
        exact (congrArg ((g.ahead v).rest.unread ·) hu).trans (Stack.unread_nil _)
      exact ⟨d, rfl, by rw [hpeek]; exact hd⟩
    · obtain ⟨c, surplus, d, -, -, -, hstep, hd⟩ := nextToken_of_no_fault h ho hf hu
      rw [hstep]
      refine ⟨d.commit, ?_, hd.commit⟩
      rw [Grammar.answer_of_no_fault hf]

theorem Refines.nextToken (h : l.Refines g v) :
    l.nextToken.1 = (g.answer v).1 ∧ l.nextToken.2.Refines g (g.answer v).2 := by
  obtain ⟨d, hstep, hd⟩ := nextToken_eq h
  rw [hstep]
  exact ⟨rfl, h.grammar_eq, h.pending_eq, hd⟩

theorem Refines.series (h : l.Refines g v) (n : Nat) :
    (series Lexer.nextToken n l).1 = (series g.answer n v).1 ∧
      (series Lexer.nextToken n l).2.Refines g (series g.answer n v).2 :=
  series_related (R := fun l v => Refines l g v) (fun _ _ => Refines.nextToken) n h

end Lexer

def overlapping : Grammar Nat where
  alternatives := [⟨0, ['a']⟩, ⟨1, ['a', 'b', 'c']⟩, ⟨2, ['b', 'd']⟩, ⟨3, ['b', 'd']⟩]
  alternatives_ne_nil := List.cons_ne_nil _ _
  literal_ne_nil := by decide

end Munch
