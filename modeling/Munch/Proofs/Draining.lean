import Munch.Proofs.Failure
import Munch.Proofs.Parsing

namespace Munch

variable {σ ι : Type}

def Outcome.token? : Outcome ι → Option (Token ι)
  | .matched t => some t
  | .skipped _ => none
  | .ended => none

def Stats.note (s : Stats) : Outcome ι → Stats
  | .matched t => { s with tokens := s.tokens + 1, matchedUnits := s.matchedUnits + t.length }
  | .skipped _ => { s with skippedUnits := s.skippedUnits + 1 }
  | .ended => s

namespace Stats

theorem tokens_foldl_note (os : List (Outcome ι)) (s : Stats) :
    (os.foldl note s).tokens = s.tokens + (os.filterMap Outcome.token?).length := by
  induction os generalizing s with
  | nil => rfl
  | cons o os ih =>
    rw [List.foldl_cons, ih, List.filterMap_cons]
    cases o with
    | matched t =>
      simp only [note, Outcome.token?, List.length_cons]
      omega
    | skipped c => rfl
    | ended => rfl

theorem matchedUnits_foldl_note (os : List (Outcome ι)) (s : Stats) :
    (os.foldl note s).matchedUnits =
      s.matchedUnits + ((os.filterMap Outcome.token?).map Token.length).sum := by
  induction os generalizing s with
  | nil => rfl
  | cons o os ih =>
    rw [List.foldl_cons, ih, List.filterMap_cons]
    cases o with
    | matched t =>
      simp only [note, Outcome.token?, List.map_cons, List.sum_cons]
      omega
    | skipped c => rfl
    | ended => rfl

theorem consumedUnits_foldl_note (os : List (Outcome ι)) (s : Stats) :
    (os.foldl note s).consumedUnits = s.consumedUnits + (os.flatMap Outcome.text).length := by
  induction os generalizing s with
  | nil => rfl
  | cons o os ih =>
    rw [List.foldl_cons, ih, List.flatMap_cons, List.length_append]
    cases o with
    | matched t =>
      simp only [note, Outcome.text, consumedUnits, Token.length, String.length_toList]
      omega
    | skipped c =>
      simp only [note, Outcome.text, consumedUnits, List.length_singleton]
      omega
    | ended => simp only [note, Outcome.text, List.length_nil, Nat.zero_add]

end Stats

namespace Grammar

variable {g : Grammar ι} {r : List Char}

theorem ne_ended_of_mem_lexing {n : Nat} (h : ∀ m < n, g.rest^[m] r ≠ []) :
    ∀ o ∈ g.lexing n r, o ≠ .ended := by
  induction n generalizing r with
  | zero => nofun
  | succ n ih =>
    rw [lexing, List.forall_mem_cons]
    refine ⟨mt first_eq_ended_iff.1 (h 0 (Nat.succ_pos n)), ih fun m hm => ?_⟩
    exact h (m + 1) (Nat.succ_lt_succ hm)

theorem length_lexing (g : Grammar ι) (n : Nat) (r : List Char) : (g.lexing n r).length = n := by
  induction n generalizing r with
  | zero => rfl
  | succ n ih => rw [lexing, List.length_cons, ih]

theorem lexing_succ (g : Grammar ι) (n : Nat) (r : List Char) :
    g.lexing (n + 1) r = g.lexing n r ++ [g.first (g.rest^[n] r)] := by
  induction n generalizing r with
  | zero => rfl
  | succ n ih => rw [lexing, ih, lexing, Function.iterate_succ_apply]; rfl

def count (g : Grammar ι) (n : Nat) (r : List Char) : Stats := (g.lexing n r).foldl Stats.note {}

theorem tokens_count (g : Grammar ι) (n : Nat) (r : List Char) :
    (g.count n r).tokens = ((g.lexing n r).filterMap Outcome.token?).length := by
  rw [count, Stats.tokens_foldl_note]
  exact Nat.zero_add _

theorem matchedUnits_count (g : Grammar ι) (n : Nat) (r : List Char) :
    (g.count n r).matchedUnits =
      (((g.lexing n r).filterMap Outcome.token?).map Token.length).sum := by
  rw [count, Stats.matchedUnits_foldl_note]
  exact Nat.zero_add _

theorem consumedUnits_count {n : Nat} (h : g.rest^[n] r = []) :
    (g.count n r).consumedUnits = r.length := by
  have htexts := g.texts_append_rest n r
  rw [h, List.append_nil] at htexts
  rw [count, Stats.consumedUnits_foldl_note, htexts]
  exact Nat.zero_add _

end Grammar

namespace Lexer

section Source

variable [Source σ Char]

/-- Steps yield the outcomes `os`, and then the end or an error. -/
inductive Drains :
    Lexer σ ι → List (Outcome ι) → Except StreamError Unit → Lexer σ ι → Prop
  | step {l l' l'' : Lexer σ ι} {o : Outcome ι} {os : List (Outcome ι)}
      {stop : Except StreamError Unit} :
      l.nextToken = (.ok o, l') → o ≠ .ended → Drains l' os stop l'' → Drains l (o :: os) stop l''
  | ended {l l' : Lexer σ ι} : l.nextToken = (.ok .ended, l') → Drains l [] (.ok ()) l'
  | failed {l l' : Lexer σ ι} {e : StreamError} :
      l.nextToken = (.error e, l') → Drains l [] (.error e) l'

variable {l : Lexer σ ι} {g : Grammar ι} {s : σ} {w : List Char}

theorem Drains.reachable {l' : Lexer σ ι} {os : List (Outcome ι)} {stop : Except StreamError Unit}
    (h : l.Drains os stop l') (hl : l.Reachable g s) : l'.Reachable g s := by
  induction h with
  | step hn _ _ ih => exact ih (hl.of_nextToken hn)
  | ended hn => exact hl.of_nextToken hn
  | failed hn => exact hl.of_nextToken hn

theorem drains_of_series {os : List (Outcome ι)} {last : Except StreamError (Outcome ι)}
    {stop : Except StreamError Unit}
    (hlast : ∀ l l' : Lexer σ ι, l.nextToken = (last, l') → l.Drains [] stop l')
    (ho : ∀ o ∈ os, o ≠ .ended)
    (h : (series nextToken (os.length + 1) l).1 = os.map .ok ++ [last]) :
    ∃ l', l.Drains os stop l' := by
  induction os generalizing l with
  | nil => exact ⟨_, hlast l _ (Prod.ext (List.cons.inj h).1 rfl)⟩
  | cons o os ih =>
    obtain ⟨hfirst, hrest⟩ := List.cons.inj h
    obtain ⟨hne, ho⟩ := List.forall_mem_cons.1 ho
    obtain ⟨l', hl'⟩ := ih ho hrest
    exact ⟨l', .step (Prod.ext hfirst rfl) hne hl'⟩

theorem drains_of_ended {n : Nat} (hn : ∀ m < n, g.rest^[m] w ≠ []) (hlast : g.rest^[n] w = [])
    (h : Delivers s w .ended) : ∃ l', (create g s).Drains (g.lexing n w) (.ok ()) l' := by
  have hclear : ∀ m < n + 1, g.Clear (g.rest^[m] w) 1 none := fun _ _ => .inr ⟨rfl, Nat.one_pos⟩
  have hseries : (series nextToken (n + 1) (create g s)).1 =
      (g.lexing n w).map .ok ++ [.ok .ended] := by
    rw [((Refines.create g s).series _).1,
      (Grammar.series_answer_of_clear _ (Stack.shows_of_delivers h) hclear).1, Grammar.lexing_succ,
      hlast, List.map_append]
    rfl
  exact drains_of_series (fun _ _ => .ended) (Grammar.ne_ended_of_mem_lexing hn)
    (by rw [Grammar.length_lexing]; exact hseries)

theorem drains_of_failed (g : Grammar ι) {e : IoError} (h : Delivers s w (.failed e)) :
    ∃ n l', (∀ m < n, ¬ g.Undecided (g.rest^[m] w)) ∧ g.Undecided (g.rest^[n] w) ∧
      (create g s).Drains (g.lexing n w) (.error (.failed e)) l' := by
  obtain ⟨n, hd, hu⟩ := g.exists_undecided w
  have hne : ∀ m < n, g.rest^[m] w ≠ [] := fun m hm hnil => hd m hm (hnil ▸ g.undecided_nil)
  have hseries : (series nextToken (n + 1) (create g s)).1 =
      (g.lexing n w).map .ok ++ [.error (.failed e)] := by
    rw [((Refines.create g s).series _).1]
    exact Grammar.series_answer_of_failure (Stack.shows_of_delivers h) hd hu 0
  obtain ⟨l', hl'⟩ := drains_of_series (fun _ _ => .failed) (Grammar.ne_ended_of_mem_lexing hne)
    (by rw [Grammar.length_lexing]; exact hseries)
  exact ⟨n, l', hd, hu, hl'⟩

end Source

end Lexer

namespace Parser

def note (p : Parser σ ι) (o : Outcome ι) (l : Lexer σ ι) : Parser σ ι :=
  { p with lexer := l, stats := p.stats.note o }

theorem settle_skipped (p : Parser σ ι) (c : Char) (way : Passage σ ι) :
    p.settle { way with skipped := c :: way.skipped } =
      (p.note (.skipped c) way.lexer).settle way := by
  have hcount : p.stats.skippedUnits + (c :: way.skipped).length =
      p.stats.skippedUnits + 1 + way.skipped.length := by
    rw [List.length_cons]
    omega
  simp only [settle, hcount]
  cases way.result with
  | ok result => cases result <;> rfl
  | error e => rfl

variable [FiniteSource σ Char] {p p' : Parser σ ι} {l l' : Lexer σ ι} {ts : List (Token ι)}

theorem parseOne_of_running (hp : p.phase = .running) :
    p.parseOne = p.settle p.lexer.passage := by
  rw [parseOne, hp]

theorem parseOne_skipped (hp : p.phase = .running) {c : Char}
    (h : p.lexer.nextToken = (.ok (.skipped c), l')) :
    p.parseOne = (p.note (.skipped c) l').parseOne := by
  have hway : p.lexer.passage = { l'.passage with skipped := c :: l'.passage.skipped } :=
    Lexer.passes_iff.1 (.skipped h l'.passes_passage)
  rw [parseOne_of_running hp, parseOne_of_running (p := p.note _ l') hp, hway, settle_skipped]
  rfl

theorem parseOne_matched (hp : p.phase = .running) {t : Token ι}
    (h : p.lexer.nextToken = (.ok (.matched t), l')) :
    p.parseOne = (.ok (.matched t), p.note (.matched t) l') := by
  rw [parseOne_of_running hp, Lexer.passes_iff.1 (.matched h)]
  rfl

theorem parseOne_ended (hp : p.phase = .running) (h : p.lexer.nextToken = (.ok .ended, l')) :
    p.parseOne = (.ok .endOfStream, { p with lexer := l', phase := .exhausted }) := by
  rw [parseOne_of_running hp, Lexer.passes_iff.1 (.ended h)]
  rfl

theorem parseOne_failed (hp : p.phase = .running) {e : StreamError}
    (h : p.lexer.nextToken = (.error e, l')) :
    p.parseOne = (.error e, { p with lexer := l' }) := by
  rw [parseOne_of_running hp, Lexer.passes_iff.1 (.failed h)]
  rfl

theorem collectFrom_eq (ts : List (Token ι)) (p : Parser σ ι) :
    p.collectFrom ts =
      match p.parseOne with
      | (.ok (.matched t), p') => p'.collectFrom (t :: ts)
      | (.ok .endOfStream, p') => (ts.reverse, .ok (), p')
      | (.error e, p') => (ts.reverse, .error e, p') := by
  rw [collectFrom.eq_def]
  split <;> next h => rw [h]

theorem collectFrom_of_drains {os : List (Outcome ι)} {stop : Except StreamError Unit}
    (h : p.lexer.Drains os stop l') (hp : p.phase = .running) (ts : List (Token ι)) :
    ∃ p', p.collectFrom ts = (ts.reverse ++ os.filterMap Outcome.token?, stop, p') ∧
      p'.lexer = l' ∧ p'.stats = os.foldl Stats.note p.stats := by
  generalize hl : p.lexer = l at h
  induction h generalizing p ts with
  | @step l l' l'' o os stop hn hne hd ih =>
    subst hl
    cases o with
    | ended => exact absurd rfl hne
    | skipped c =>
      obtain ⟨p', hp', hlast⟩ := ih (p := p.note (.skipped c) l') hp ts rfl
      refine ⟨p', ?_, hlast⟩
      rw [collectFrom_eq, parseOne_skipped hp hn, ← collectFrom_eq]
      exact hp'
    | matched t =>
      obtain ⟨p', hp', hlast⟩ := ih (p := p.note (.matched t) l') hp (t :: ts) rfl
      refine ⟨p', ?_, hlast⟩
      rw [collectFrom_eq, parseOne_matched hp hn]
      simp only [hp', List.reverse_cons, List.append_assoc]
      rfl
  | @ended l l' hn =>
    subst hl
    refine ⟨{ p with lexer := l', phase := .exhausted }, ?_, rfl, rfl⟩
    rw [collectFrom_eq, parseOne_ended hp hn, List.filterMap_nil, List.append_nil]
  | @failed l l' e hn =>
    subst hl
    refine ⟨{ p with lexer := l' }, ?_, rfl, rfl⟩
    rw [collectFrom_eq, parseOne_failed hp hn, List.filterMap_nil, List.append_nil]

theorem collect_of_drains {os : List (Outcome ι)} {stop : Except StreamError Unit}
    (h : p.lexer.Drains os stop l') (hp : p.phase = .running) :
    ∃ p', p.collect = (os.filterMap Outcome.token?, stop, p') ∧
      p'.lexer = l' ∧ p'.stats = os.foldl Stats.note p.stats :=
  collectFrom_of_drains h hp []

theorem collect_of_ended {g : Grammar ι} {s : σ} {w : List Char} {n : Nat}
    (hn : ∀ m < n, g.rest^[m] w ≠ []) (hlast : g.rest^[n] w = []) (h : Delivers s w .ended) :
    ∃ p', (create g s).collect = ((g.lexing n w).filterMap Outcome.token?, .ok (), p') ∧
      p'.stats = g.count n w := by
  obtain ⟨l', hdrains⟩ := Lexer.drains_of_ended hn hlast h
  obtain ⟨p', hcollect, -, hstats⟩ := collect_of_drains (p := create g s) hdrains rfl
  exact ⟨p', hcollect, hstats⟩

theorem finish_eq (p : Parser σ ι) :
    p.finish =
      match p.parseOne with
      | (.ok (.matched _), p') => p'.finish
      | (.ok .endOfStream, p') => (.ok (), p')
      | (.error e, p') => (.error e, p') := by
  rw [finish.eq_def]
  split <;> next h => rw [h]

theorem finish_eq_collectFrom (p : Parser σ ι) (ts : List (Token ι)) :
    p.finish = (p.collectFrom ts).2 := by
  fun_induction collectFrom ts p with
  | case1 ts p t p' h ih => rw [finish_eq, h]; exact ih
  | case2 ts p p' h => rw [finish_eq, h]
  | case3 ts p e p' h => rw [finish_eq, h]

end Parser

end Munch
