import Munch.Proofs.Step

namespace Munch

variable {σ ι : Type}

inductive Trial
  | matched
  | failed
  | ended

namespace Channel

variable [Source σ Char]

def giveUp (result : Trial) (text : List Char) (c : Channel σ Char) :
    Except StreamError Trial × Channel σ Char :=
  match c.unread text with
  | (.error e, c) => (.error e, c)
  | (.ok (), c) => (.ok result, c)

/-- Goes on with a trial that has read `text`, last one first. -/
def trialFrom (text : List Char) : List Char → Channel σ Char →
    Except StreamError Trial × Channel σ Char
  | [], c => (.ok .matched, c)
  | d :: l, c =>
    match c.read with
    | (.error e, c) => (.error e, c)
    | (.ok none, c) => c.giveUp (if text = [] then .ended else .failed) text
    | (.ok (some u), c) =>
      if u = d then c.trialFrom (u :: text) l else c.giveUp .failed (u :: text)

/-- Tries the alternatives in turn. Where all of them fail, one character is dropped. The end is
the answer if the very first trial meets it at once. -/
def trials (first : Bool) : List (Alternative ι) → Channel σ Char →
    Except StreamError (Outcome ι) × Channel σ Char
  | [], c =>
    match c.read with
    | (.error e, c) => (.error e, c)
    | (.ok none, c) => (.ok .ended, c)
    | (.ok (some u), c) => (.ok (.skipped u), c.commit)
  | a :: as, c =>
    match c.trialFrom [] a.literal with
    | (.error e, c) => (.error e, c)
    | (.ok .matched, c) => (.ok (.matched ⟨a.text, a.id⟩), c.commit)
    | (.ok .failed, c) => c.trials false as
    | (.ok .ended, c) => if first then (.ok .ended, c) else c.trials false as

end Channel

def Grammar.trialStep [Source σ Char] (g : Grammar ι) (c : Channel σ Char) :
    Except StreamError (Outcome ι) × Channel σ Char := c.trials true g.trialOrder

def Trial.of (l us : List Char) : Trial :=
  if us = l then .matched else if us = [] then .ended else .failed

def Scan.back (t : Scan σ Char) (text l : List Char) : Stack σ Char :=
  if t.fault = none ∧ t.units ≠ l then t.rest.unread (text.reverse ++ t.units) else t.rest

theorem Scan.back_cons (t : Scan σ Char) (text l : List Char) (u : Char) :
    Scan.back { t with units := u :: t.units } text (u :: l) = t.back (u :: text) l := by
  simp [Scan.back]

namespace Stack

variable [Source σ Char] {v w : Stack σ Char} {l : List Char} {b u : Char}

def along (l : List Char) (v : Stack σ Char) : Scan σ Char :=
  v.scan (needed l (v.scan l.length).units)

theorem along_nil (v : Stack σ Char) : v.along [] = ⟨[], none, v⟩ := rfl

theorem along_of_error {e : StreamError} (h : v.read = (.error e, w)) :
    v.along (b :: l) = ⟨[], some e, w⟩ := by
  rw [along, List.length_cons, scan_of_error h, needed_cons_nil, scan_of_error h]

theorem along_of_none (h : v.read = (.ok none, w)) : v.along (b :: l) = ⟨[], none, w⟩ := by
  rw [along, List.length_cons, scan_of_none h, needed_cons_nil, scan_of_none h]

theorem along_of_eq (h : v.read = (.ok (some u), w)) :
    v.along (u :: l) = { w.along l with units := u :: (w.along l).units } := by
  rw [along, List.length_cons, scan_of_unit h, needed_cons_cons, if_pos rfl, scan_of_unit h, along]

theorem along_of_ne (h : v.read = (.ok (some u), w)) (hne : u ≠ b) :
    v.along (b :: l) = ⟨[u], none, w⟩ := by
  rw [along, List.length_cons, scan_of_unit h, needed_cons_cons, if_neg hne.symm, scan_of_unit h]
  rfl

theorem along_peek {m k : Nat} (h : (v.scan m).fault = none) (hl : l.length ≤ k) :
    (v.peek m).along l = (v.peek m).scan (needed l (v.scan k).units) := by
  rw [along, scan_units_peek h, scan_units_take hl, needed_take _ _ (Nat.le_refl _)]

end Stack

namespace Channel

variable {c : Channel σ Char} {v : Stack σ Char} {capacity n : Nat} {l text : List Char}

theorem giveUp_refines (h : c.Refines v capacity n) (ho : v.IsOpen) (hn : text.length ≤ n)
    (hroom : text.length + v.waiting.length ≤ capacity) (result : Trial) :
    ∃ d, c.giveUp result text = (.ok result, d) ∧ d.Refines (v.unread text.reverse) capacity 0 := by
  obtain ⟨d, hu, hd⟩ := h.unread ho hn hroom
  exact ⟨d, by rw [giveUp, hu], hd.mono (Nat.zero_le _)⟩

variable [Source σ Char]

theorem trialFrom_refines (h : c.Refines v capacity n) (hn : text.length ≤ n)
    (hl : text.length + l.length ≤ capacity) (hw : text.length + v.waiting.length ≤ capacity) :
    ∃ d, c.trialFrom text l =
        ((v.along l).answer fun us => Trial.of (text.reverse ++ l) (text.reverse ++ us), d) ∧
      d.Refines ((v.along l).back text l) capacity 0 := by
  -- the trial may unread all of `text`: that many units are granted and have room
  induction l generalizing c v n text with
  | nil =>
    rw [Stack.along_nil, trialFrom]
    exact ⟨c, by simp [Scan.answer, Trial.of], h.mono (Nat.zero_le n)⟩
  | cons b l ih =>
    obtain ⟨d, hd, hread⟩ := h.read
    rw [trialFrom, hd]
    rw [List.length_cons] at hl
    cases hr : v.read with
    | mk answer w =>
      rw [hr] at hread
      cases answer with
      | error e =>
        rw [Stack.along_of_error hr]
        exact ⟨d, rfl, hread⟩
      | ok unit =>
        cases unit with
        | none =>
          obtain ⟨hnil, hended, -⟩ := Stack.read_of_read_none hr
          have hroom : text.length + w.waiting.length ≤ capacity := by
            rw [hnil]
            exact Nat.le_of_add_right_le hl
          obtain ⟨d', hback, hd'⟩ := giveUp_refines hread (Stack.isOpen_of_ended hended) hn hroom
            (if text = [] then .ended else .failed)
          rw [Stack.along_of_none hr]
          refine ⟨d', ?_, ?_⟩
          · simp [hback, Scan.answer, Trial.of]
          · simpa [Scan.back] using hd'
        | some u =>
          have hroom : (u :: text).length + w.waiting.length ≤ capacity := by
            rw [Stack.waiting_of_read_unit hr, List.length_cons, List.length_drop]
            omega
          have hn' : (u :: text).length ≤ n + 1 := Nat.succ_le_succ hn
          by_cases hu : u = b
          · subst hu
            obtain ⟨d', htrial, hd'⟩ := ih hread hn' (by rw [List.length_cons]; omega) hroom
            rw [Stack.along_of_eq hr, Scan.answer_cons, Scan.back_cons]
            refine ⟨d', ?_, hd'⟩
            simpa using htrial
          · obtain ⟨d', hback, hd'⟩ := giveUp_refines hread (.of_read hr) hn' hroom .failed
            rw [Stack.along_of_ne hr hu]
            refine ⟨d', ?_, ?_⟩
            · simp [hu, hback, Scan.answer, Trial.of]
            · simpa [Scan.back, hu] using hd'

end Channel

variable [Source σ Char] {g : Grammar ι} {v : Stack σ Char} {m : Nat} {a : Alternative ι}
  {as : List (Alternative ι)}

/-- The trials made on `v` went `m` deep and failed, and those of `as` are still to be made. -/
structure Trying (g : Grammar ι) (v : Stack σ Char) (m : Nat) (as : List (Alternative ι)) :
    Prop where
  no_fault : (v.scan m).fault = none
  sorted : as.Pairwise fun a b => b.length ≤ a.length
  length_le : ∀ a ∈ as, a.literal.length ≤ g.maxLength
  literal_ne_nil : ∀ a ∈ as, a.literal ≠ []
  depth_eq : g.depth v = max m (lookahead (as.map (·.literal)) (g.window v))
  lead_eq : g.lead? (g.window v) = as.find? (·.literal.isPrefixOf (g.window v))

namespace Trying

theorem start (g : Grammar ι) (v : Stack σ Char) : Trying g v 0 g.trialOrder where
  no_fault := rfl
  sorted := by
    rw [Grammar.trialOrder, List.pairwise_map]
    exact g.initial_sorted
  length_le := by
    rw [Grammar.trialOrder, List.forall_mem_map]
    exact fun k hk => Grammar.length_le_maxLength (Grammar.alternative_mem hk)
  literal_ne_nil := by
    rw [Grammar.trialOrder, List.forall_mem_map]
    exact fun k hk => g.literal_ne_nil _ (Grammar.alternative_mem hk)
  depth_eq := by
    apply eq_of_forall_ge_iff
    intro n
    rw [Nat.zero_max, Grammar.depth, Grammar.lookahead_le_iff, lookahead_le_iff,
      Grammar.trialOrder, List.map_map, List.forall_mem_map]
    constructor
    · exact fun h k hk => h _ (Grammar.alternative_mem hk)
    · intro h a ha
      obtain ⟨k, hk, rfl⟩ := Grammar.exists_mem_initial ha
      exact h k hk
  lead_eq := by
    rw [Grammar.lead?_eq_find?, Grammar.trialOrder, List.find?_map]
    rfl

theorem depth_nil (h : Trying g v m []) : g.depth v = m := h.depth_eq.trans (Nat.max_zero m)

theorem depth_cons (h : Trying g v m (a :: as)) :
    g.depth v = max (max m (needed a.literal (g.window v)))
      (lookahead (as.map (·.literal)) (g.window v)) := by
  rw [h.depth_eq, Nat.max_assoc]
  rfl

theorem next (h : Trying g v m (a :: as))
    (hf : (v.scan (needed a.literal (g.window v))).fault = none)
    (hp : ¬ a.literal <+: g.window v) :
    Trying g v (max m (needed a.literal (g.window v))) as where
  no_fault := Stack.scan_fault_max h.no_fault hf
  sorted := h.sorted.tail
  length_le := fun b hb => h.length_le b (List.mem_cons_of_mem a hb)
  literal_ne_nil := fun b hb => h.literal_ne_nil b (List.mem_cons_of_mem a hb)
  depth_eq := h.depth_cons
  lead_eq := by
    rw [h.lead_eq, List.find?_cons_of_neg]
    rwa [List.isPrefixOf_iff_prefix]

theorem depth_of_isPrefix (h : Trying g v m (a :: as)) (hp : a.literal <+: g.window v) :
    g.depth v = max m a.literal.length := by
  rw [h.depth_cons, needed_of_isPrefix hp]
  apply Nat.max_eq_left
  apply Nat.le_trans _ (Nat.le_max_right _ _)
  apply lookahead_le_iff.2
  rw [List.forall_mem_map]
  intro b hb
  exact Nat.le_trans (Nat.min_le_left _ _) (List.rel_of_pairwise_cons h.sorted hb)

theorem answer_of_fault (h : Trying g v m (a :: as)) {e : StreamError}
    (hf : (v.scan (needed a.literal (g.window v))).fault = some e) :
    g.answer v = (.error e, ((v.peek m).scan (needed a.literal (g.window v))).rest) := by
  have hm : m ≤ needed a.literal (g.window v) := by
    apply Nat.le_of_not_lt
    intro hlt
    have hnone := Stack.scan_fault_mono (Nat.le_of_lt hlt) h.no_fault
    rw [hf] at hnone
    cases hnone
  have hahead : g.ahead v = v.scan (needed a.literal (g.window v)) := by
    apply Stack.scan_of_length_lt (Stack.length_scan_lt hf)
    rw [h.depth_cons]
    exact Nat.le_trans (Nat.le_max_right _ _) (Nat.le_max_left _ _)
  rw [Grammar.answer_of_fault (by rw [hahead, hf]), hahead, Stack.scan_peek hm h.no_fault]

theorem first_of_isPrefix (h : Trying g v m (a :: as)) (hp : a.literal <+: g.window v) :
    g.first (g.window v) = .matched ⟨a.text, a.id⟩ := by
  have hlead : g.lead? (g.window v) = some a := by
    rw [h.lead_eq, List.find?_cons_of_pos]
    exact List.isPrefixOf_iff_prefix.2 hp
  cases hw : g.window v with
  | nil =>
    rw [hw, List.prefix_nil] at hp
    exact absurd hp (h.literal_ne_nil a List.mem_cons_self)
  | cons c cs =>
    rw [hw] at hlead
    rw [Grammar.first, hlead]

theorem answer_of_isPrefix (h : Trying g v m (a :: as))
    (hf : (v.scan (needed a.literal (g.window v))).fault = none)
    (hp : a.literal <+: g.window v) :
    g.answer v = (.ok (.matched ⟨a.text, a.id⟩), ((v.peek m).scan a.literal.length).rest) := by
  rw [needed_of_isPrefix hp] at hf
  have hdepth := h.depth_of_isPrefix hp
  have hnone : (g.ahead v).fault = none := by
    rw [Grammar.ahead, hdepth]
    exact Stack.scan_fault_max h.no_fault hf
  have hunits : ((v.peek m).scan a.literal.length).units = a.literal := by
    rw [Stack.scan_units_peek h.no_fault,
      Stack.scan_units_take (h.length_le a List.mem_cons_self)]
    exact (List.prefix_iff_eq_take.1 hp).symm
  rw [Grammar.answer_of_no_fault hnone, Grammar.first_ahead, h.first_of_isPrefix hp, hdepth,
    ← Stack.peek_peek h.no_fault, Stack.peek, hunits, Outcome.text, Alternative.text,
    String.toList_ofList, Stack.drop_unread (Nat.le_refl _), List.drop_length, Stack.unread_nil]

theorem answer_of_nil (h : Trying g v m []) {u : Char} {us : List Char}
    (hu : g.window v = u :: us) : g.answer v = (.ok (.skipped u), (v.peek m).drop 1) := by
  have hdepth := h.depth_nil
  have hlead : g.lead? (u :: us) = none := by rw [← hu, h.lead_eq]; rfl
  have hnone : (g.ahead v).fault = none := by
    rw [Grammar.ahead, hdepth]
    exact h.no_fault
  rw [Grammar.answer_of_no_fault hnone, Grammar.first_ahead, hu, Grammar.first, hlead, hdepth]
  rfl

end Trying

theorem Grammar.answer_of_window_nil (hw : g.window v = []) (hf : (v.scan 1).fault = none) :
    g.answer v = (.ok .ended, v.peek 1) := by
  have hdepth : g.depth v = 1 := by
    rw [depth, hw]
    exact lookahead_of_undecided g.undecided_nil
  have hnone : (g.ahead v).fault = none := by rw [ahead, hdepth, hf]
  rw [answer_of_no_fault hnone, first_ahead, hw, hdepth]
  rfl

namespace Channel

variable {c : Channel σ Char}

theorem units_peek (h : Trying g v m (a :: as)) :
    ((v.peek m).scan (needed a.literal (g.window v))).units =
      (g.window v).take (needed a.literal (g.window v)) := by
  rw [Stack.scan_units_peek h.no_fault]
  exact Stack.scan_units_take
    (Nat.le_trans (Nat.min_le_left _ _) (h.length_le a List.mem_cons_self)) v

theorem trialFrom_peek (h : Trying g v m (a :: as)) (hc : c.Refines (v.peek m) g.maxLength 0) :
    ∃ d, c.trialFrom [] a.literal =
        (((v.peek m).scan (needed a.literal (g.window v))).answer (Trial.of a.literal), d) ∧
      d.Refines (((v.peek m).scan (needed a.literal (g.window v))).back [] a.literal)
        g.maxLength 0 := by
  have ha := h.length_le a List.mem_cons_self
  have hl : ([] : List Char).length + a.literal.length ≤ g.maxLength := by
    rwa [List.length_nil, Nat.zero_add]
  have hroom : ([] : List Char).length + (v.peek m).waiting.length ≤ g.maxLength := by
    rw [List.length_nil, Nat.zero_add]
    exact Nat.le_of_add_left_le hc.room
  have htrial := trialFrom_refines hc (Nat.zero_le _) hl hroom
  rwa [Stack.along_peek h.no_fault ha] at htrial

theorem trialFrom_of_fault (h : Trying g v m (a :: as)) (hc : c.Refines (v.peek m) g.maxLength 0)
    {e : StreamError} (hf : (v.scan (needed a.literal (g.window v))).fault = some e) :
    ∃ d, c.trialFrom [] a.literal = (.error e, d) ∧ d.Refines (g.answer v).2 g.maxLength 0 := by
  obtain ⟨d, htrial, hd⟩ := trialFrom_peek h hc
  rw [h.answer_of_fault hf]
  rw [← Stack.scan_fault_peek h.no_fault] at hf
  rw [Scan.answer, hf] at htrial
  rw [Scan.back, if_neg fun hn => Option.some_ne_none e (hf.symm.trans hn.1)] at hd
  exact ⟨d, htrial, hd⟩

theorem trialFrom_of_isPrefix (h : Trying g v m (a :: as))
    (hc : c.Refines (v.peek m) g.maxLength 0)
    (hf : (v.scan (needed a.literal (g.window v))).fault = none)
    (hp : a.literal <+: g.window v) :
    ∃ d, c.trialFrom [] a.literal = (.ok .matched, d) ∧
      d.Refines (g.answer v).2 g.maxLength 0 := by
  obtain ⟨d, htrial, hd⟩ := trialFrom_peek h hc
  have hunits := (units_peek h).trans (take_needed.2 hp)
  rw [h.answer_of_isPrefix hf hp]
  rw [← Stack.scan_fault_peek h.no_fault] at hf
  rw [Scan.answer, hf] at htrial
  rw [Scan.back, if_neg fun hn => hn.2 hunits, needed_of_isPrefix hp] at hd
  refine ⟨d, ?_, hd⟩
  rw [htrial, hunits, Trial.of, if_pos rfl]

theorem trialFrom_of_not_isPrefix (h : Trying g v m (a :: as))
    (hc : c.Refines (v.peek m) g.maxLength 0)
    (hf : (v.scan (needed a.literal (g.window v))).fault = none)
    (hp : ¬ a.literal <+: g.window v) :
    ∃ d, c.trialFrom [] a.literal = (.ok (if g.window v = [] then .ended else .failed), d) ∧
      d.Refines (v.peek (max m (needed a.literal (g.window v)))) g.maxLength 0 := by
  obtain ⟨d, htrial, hd⟩ := trialFrom_peek h hc
  have hunits := units_peek h
  have hshort : ((v.peek m).scan (needed a.literal (g.window v))).units ≠ a.literal := by
    rw [hunits]
    exact fun heq => hp (take_needed.1 heq)
  have hnil : ((v.peek m).scan (needed a.literal (g.window v))).units = [] ↔
      g.window v = [] := by
    rw [hunits, List.take_eq_nil_iff]
    exact or_iff_right
      (Nat.ne_of_gt (needed_pos (h.literal_ne_nil a List.mem_cons_self) _))
  rw [← Stack.scan_fault_peek h.no_fault] at hf
  rw [Scan.answer, hf] at htrial
  rw [Scan.back, if_pos ⟨hf, hshort⟩] at hd
  rw [← Stack.peek_peek h.no_fault]
  refine ⟨d, ?_, hd⟩
  rw [htrial, Trial.of, if_neg hshort]
  simp only [hnil]

theorem trials_refines (h : Trying g v m as) (hc : c.Refines (v.peek m) g.maxLength 0)
    (hw : g.window v ≠ []) (first : Bool) :
    ∃ d, c.trials first as = ((g.answer v).1, d) ∧ d.Refines (g.answer v).2 g.maxLength 0 := by
  -- a trial that fails has only looked ahead, so the next one is made from a `Trying` again
  induction as generalizing m c first with
  | nil =>
    obtain ⟨u, us, hu⟩ := List.exists_cons_of_ne_nil hw
    obtain ⟨d, hd, href⟩ := hc.read
    have hread : (v.peek m).read = (.ok (some u), (v.peek m).drop 1) := by
      have hm : 0 < m := h.depth_nil ▸ g.depth_pos v
      obtain ⟨m, rfl⟩ := Nat.exists_eq_add_of_le' hm
      exact Stack.read_peek hu h.no_fault
    rw [hread] at hd href
    rw [trials, hd, h.answer_of_nil hu]
    exact ⟨d.commit, rfl, href.commit⟩
  | cons a as ih =>
    rw [trials]
    cases hf : (v.scan (needed a.literal (g.window v))).fault with
    | some e =>
      obtain ⟨d, htrial, hd⟩ := trialFrom_of_fault h hc hf
      refine ⟨d, ?_, hd⟩
      rw [htrial, h.answer_of_fault hf]
    | none =>
      by_cases hp : a.literal <+: g.window v
      · obtain ⟨d, htrial, hd⟩ := trialFrom_of_isPrefix h hc hf hp
        refine ⟨d.commit, ?_, hd.commit⟩
        rw [htrial, h.answer_of_isPrefix hf hp]
      · obtain ⟨d, htrial, hd⟩ := trialFrom_of_not_isPrefix h hc hf hp
        rw [htrial, if_neg hw]
        exact ih (h.next hf hp) hd false

theorem trials_of_window_nil (h : Trying g v 0 (a :: as)) (hc : c.Refines v g.maxLength 0)
    (hw : g.window v = []) :
    ∃ d, c.trials true (a :: as) = ((g.answer v).1, d) ∧
      d.Refines (g.answer v).2 g.maxLength 0 := by
  have hne := h.literal_ne_nil a List.mem_cons_self
  have hneeded : needed a.literal (g.window v) = 1 := by rw [hw, needed_nil hne]
  rw [trials]
  cases hf : (v.scan (needed a.literal (g.window v))).fault with
  | some e =>
    obtain ⟨d, htrial, hd⟩ := trialFrom_of_fault h hc hf
    refine ⟨d, ?_, hd⟩
    rw [htrial, h.answer_of_fault hf]
  | none =>
    have hp : ¬ a.literal <+: g.window v := by rwa [hw, List.prefix_nil]
    obtain ⟨d, htrial, hd⟩ := trialFrom_of_not_isPrefix h hc hf hp
    rw [hneeded] at hf hd
    rw [htrial, if_pos hw, Grammar.answer_of_window_nil hw hf]
    exact ⟨d, rfl, hd⟩

theorem Refines.trialStep (h : c.Refines v g.maxLength 0) :
    (g.trialStep c).1 = (g.answer v).1 ∧
      (g.trialStep c).2.Refines (g.answer v).2 g.maxLength 0 := by
  have hstart := Trying.start g v
  suffices hstep : ∃ d, g.trialStep c = ((g.answer v).1, d) ∧
      d.Refines (g.answer v).2 g.maxLength 0 by
    obtain ⟨d, hd, href⟩ := hstep
    rw [hd]
    exact ⟨rfl, href⟩
  rw [Grammar.trialStep]
  by_cases hw : g.window v = []
  · cases horder : g.trialOrder with
    | nil => exact absurd (List.map_eq_nil_iff.1 horder) g.initial_ne_nil
    | cons a as =>
      rw [horder] at hstart
      exact trials_of_window_nil hstart h hw
  · exact trials_refines hstart h hw true

end Channel

/-- Call by call a new lexer and the trial procedure give one answer, have made the same pulls
and have the same number of units waiting. -/
theorem Lexer.answers_eq_trials (g : Grammar ι) (s : σ) (n : Nat) :
    (series Lexer.nextToken n (Lexer.create g s)).1 =
        (series g.trialStep n (Channel.create s g.maxLength)).1 ∧
      (series Lexer.nextToken n (Lexer.create g s)).2.channel.pulled =
        (series g.trialStep n (Channel.create s g.maxLength)).2.pulled ∧
      (series Lexer.nextToken n (Lexer.create g s)).2.channel.buffered =
        (series g.trialStep n (Channel.create s g.maxLength)).2.buffered := by
  obtain ⟨hanswers, hlexer⟩ := (Refines.create g s).series n
  obtain ⟨htrials, hchannel⟩ := series_related
    (R := fun c v => Channel.Refines c v g.maxLength 0)
    (fun _ _ => Channel.Refines.trialStep) n (Channel.Refines.create s g.maxLength)
  refine ⟨hanswers.trans htrials.symm, ?_, ?_⟩
  · rw [hlexer.channel.pulled_eq, hchannel.pulled_eq]
  · rw [hlexer.channel.buffered_eq, hchannel.buffered_eq]

end Munch
