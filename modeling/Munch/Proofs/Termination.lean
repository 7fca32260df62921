import Munch.Proofs.Draining
import Munch.Proofs.Lifecycle

namespace Munch

variable {σ υ ι : Type}

inductive Stage.Awaits [Source σ υ] : Stage → σ → List υ → Prop
  | open {s : σ} {us : List υ} {stop : Reply υ} : Delivers s us stop → Awaits .open s us
  | ended {s : σ} : Awaits .ended s []
  | closed {s : σ} {fault : Option IoError} : Awaits (.closed fault) s []

section Delivers

variable [Source σ υ] {s : σ} {us : List υ} {stop : Reply υ}

theorem Delivers.exists_cons (h : Delivers s us stop) {u : υ} {s' : σ}
    (hn : Source.next s = (.unit u, s')) : ∃ ws, us = u :: ws ∧ Delivers s' ws stop := by
  cases h with
  | unit hn' hrest => rw [hn] at hn'; cases hn'; exact ⟨_, rfl, hrest⟩
  | ended hn' => rw [hn] at hn'; cases hn'
  | failed hn' => rw [hn] at hn'; cases hn'

theorem Delivers.eq_nil (h : Delivers s us stop) (hn : ∀ u, (Source.next s).1 ≠ .unit u) :
    us = [] := by
  cases h with
  | unit hn' _ => exact absurd (congrArg Prod.fst hn') (hn _)
  | ended _ => rfl
  | failed _ => rfl

theorem Delivers.unique (h : Delivers s us stop) {ws : List υ} {stop' : Reply υ}
    (h' : Delivers s ws stop') : us = ws := by
  induction h generalizing ws with
  | unit hn _ ih =>
    obtain ⟨ws, rfl, hrest⟩ := h'.exists_cons hn
    rw [ih hrest]
  | ended hn => exact (h'.eq_nil (by rw [hn]; nofun)).symm
  | failed hn => exact (h'.eq_nil (by rw [hn]; nofun)).symm

end Delivers

theorem Stage.Awaits.unique [Source σ υ] {stage : Stage} {s : σ} {us ws : List υ}
    (h : stage.Awaits s us) (h' : stage.Awaits s ws) : us = ws := by
  cases h with
  | «open» hd => cases h' with | «open» hd' => exact hd.unique hd'
  | ended => cases h'; rfl
  | closed => cases h'; rfl

namespace Stack

variable [Source σ υ]

def Totals (v : Stack σ υ) (n : Nat) : Prop :=
  ∃ us, v.stage.Awaits v.source us ∧ us.length + v.pulled = n

theorem Totals.delivers {v : Stack σ υ} {n : Nat} (h : v.Totals n) (hs : v.stage = .open) :
    ∃ us stop, Delivers v.source us stop ∧ us.length + v.pulled = n := by
  obtain ⟨us, hus, rfl⟩ := h
  rw [hs] at hus
  cases hus with
  | «open» hd => exact ⟨us, _, hd, rfl⟩

theorem Reading.totals {v : Stack σ υ} {out : Except StreamError (Option υ) × Stack σ υ}
    (h : v.Reading out) {n : Nat} (hn : v.Totals n) : out.2.Totals n := by
  cases h with
  | closed _ => exact hn
  | waiting _ _ => exact hn
  | ended _ _ => exact hn
  | unit hs _ hnext =>
    obtain ⟨us, stop, hd, rfl⟩ := hn.delivers hs
    obtain ⟨ws, rfl, hrest⟩ := hd.exists_cons hnext
    refine ⟨ws, by rw [hs]; exact .open hrest, ?_⟩
    simp only [List.length_cons]
    omega
  | last hs _ hnext =>
    obtain ⟨us, stop, hd, rfl⟩ := hn.delivers hs
    obtain rfl := hd.eq_nil (by rw [hnext]; nofun)
    exact ⟨[], .ended, rfl⟩
  | failed hs _ hnext =>
    obtain ⟨us, stop, hd, rfl⟩ := hn.delivers hs
    obtain rfl := hd.eq_nil (by rw [hnext]; nofun)
    exact ⟨[], .closed, rfl⟩

theorem totals_scan (n : Nat) {v : Stack σ υ} {m : Nat} (h : v.Totals m) :
    (v.scan n).rest.Totals m := by
  induction n, v using scan.induct with
  | case1 v => exact h
  | case2 n v u w hr ih =>
    rw [scan_of_unit hr]
    exact ih ((reading_of_eq hr).totals h)
  | case3 n v w hr =>
    rw [scan_of_none hr]
    exact (reading_of_eq hr).totals h
  | case4 n v e w hr =>
    rw [scan_of_error hr]
    exact (reading_of_eq hr).totals h

end Stack

variable [Source σ Char]

theorem Grammar.Answering.totals {g : Grammar ι} {v : Stack σ Char}
    {out : Except StreamError (Outcome ι) × Stack σ Char} (h : g.Answering v out) {n : Nat}
    (hn : v.Totals n) : out.2.Totals n := by
  cases h with
  | failed _ => exact Stack.totals_scan _ hn
  | given _ => exact Stack.totals_scan _ hn

theorem Grammar.Answering.text_ne_nil {g : Grammar ι} {v : Stack σ Char}
    {out : Except StreamError (Outcome ι) × Stack σ Char} (h : g.Answering v out) {o : Outcome ι}
    (ho : out.1 = .ok o) (hne : o ≠ .ended) : o.text ≠ [] := by
  cases h with
  | failed _ => cases ho
  | given _ =>
    cases ho
    exact g.text_first_ne_nil (mt first_eq_ended_iff.2 hne)

namespace Lexer

variable {l l' : Lexer σ ι} {n : Nat} {o : Outcome ι}

def Remains (l : Lexer σ ι) (n : Nat) : Prop :=
  ∃ us, l.channel.stage.Awaits l.channel.source us ∧ l.channel.buffered + us.length = n

theorem Remains.unique {m : Nat} (h : l.Remains m) (h' : l.Remains n) : m = n := by
  obtain ⟨us, hus, rfl⟩ := h
  obtain ⟨ws, hws, rfl⟩ := h'
  rw [hus.unique hws]

theorem Stepping.remains {out : Except StreamError (Outcome ι) × Lexer σ ι} (h : l.Stepping out)
    (hn : l.Remains n) :
    ∃ m, out.2.Remains m ∧ ∀ o, out.1 = .ok o →
      (∃ t, l.pending = t :: out.2.pending ∧ o = .matched t ∧ m = n) ∨
        l.pending = [] ∧ out.2.pending = [] ∧ m + o.text.length = n ∧
          (o ≠ .ended → o.text ≠ []) := by
  cases h with
  | closed _ => exact ⟨n, hn, nofun⟩
  | @waiting t pending _ hp =>
    refine ⟨n, hn, fun o ho => .inl ⟨t, hp, ?_, rfl⟩⟩
    cases ho
    rfl
  | @searched v d hp ho hv hd =>
    obtain ⟨us, hus, rfl⟩ := hn
    rw [hv.stage_eq, hv.source_eq] at hus
    have hanswer := l.grammar.answering v
    -- what the search pulled and did not keep waits in the buffer again
    obtain ⟨ws, hws, htotal⟩ := hanswer.totals ⟨us, hus, rfl⟩
    obtain ⟨lost, -, hnone, hlen⟩ := hanswer.length_eq
    rw [← hd.stage_eq, ← hd.source_eq] at hws
    refine ⟨_, ⟨ws, hws, rfl⟩, fun o hok => .inr ⟨hp, hp, ?_, hanswer.text_ne_nil hok⟩⟩
    have hlost := hnone ⟨o, hok⟩
    rw [hok, textOf] at hlen
    rw [hd.buffered_eq, hv.buffered_eq]
    omega

theorem remains_of_isClosed (h : l.channel.isClosed = true) : ∃ n, l.Remains n := by
  refine ⟨_, [], ?_, rfl⟩
  unfold Channel.isClosed at h
  split at h
  · next hs => rw [hs]; exact .closed
  · cases h

theorem Reachable.remains {g : Grammar ι} {s : σ} {us : List Char} {stop : Reply Char}
    (h : l.Reachable g s) (hs : Delivers s us stop) : ∃ n, l.Remains n := by
  induction h with
  | create => exact ⟨_, us, .open hs, rfl⟩
  | nextToken hl ih =>
    obtain ⟨n, hn⟩ := ih
    obtain ⟨m, hm, -⟩ := (stepping hl.valid.2).remains hn
    exact ⟨m, hm⟩
  | @pushBack l t _ ih =>
    rw [Lexer.pushBack]
    split
    · exact ih
    · exact ih
  | @close l _ _ => exact remains_of_isClosed l.channel.isClosed_close

theorem Remains.step (hn : l.Remains n) (hl : l.Valid) (h : l.nextToken = (.ok o, l')) :
    ∃ m, l'.Remains m ∧
      ((∃ t, l.pending = t :: l'.pending ∧ o = .matched t ∧ m = n) ∨
        l.pending = [] ∧ l'.pending = [] ∧ m + o.text.length = n ∧
          (o ≠ .ended → o.text ≠ [])) := by
  have hstep := stepping hl
  rw [h] at hstep
  obtain ⟨m, hm, hcases⟩ := hstep.remains hn
  exact ⟨m, hm, hcases o rfl⟩

theorem Remains.of_skipped (hn : l.Remains n) (hl : l.Valid) {c : Char}
    (h : l.nextToken = (.ok (.skipped c), l')) :
    l'.pending = l.pending ∧ ∃ m, l'.Remains m ∧ m + 1 = n := by
  obtain ⟨m, hm, ⟨t, -, ho, -⟩ | ⟨hp, hp', hlen, -⟩⟩ := hn.step hl h
  · cases ho
  · exact ⟨hp'.trans hp.symm, m, hm, hlen⟩

theorem Remains.of_matched (hn : l.Remains n) (hl : l.Valid) (hp : l.pending = []) {t : Token ι}
    (h : l.nextToken = (.ok (.matched t), l')) :
    l'.pending = [] ∧ 0 < t.length ∧ ∃ m, l'.Remains m ∧ m + t.length = n := by
  obtain ⟨m, hm, ⟨t', hp', -⟩ | ⟨-, hp', hlen, hne⟩⟩ := hn.step hl h
  · cases hp.symm.trans hp'
  · have hpos := List.length_pos_iff.2 (hne nofun)
    rw [Outcome.text, String.length_toList] at hlen hpos
    exact ⟨hp', hpos, m, hm, hlen⟩

theorem Remains.of_waiting (hn : l.Remains n) (hl : l.Valid) (hp : l.pending ≠ []) {t : Token ι}
    (h : l.nextToken = (.ok (.matched t), l')) :
    l'.pending.length + 1 = l.pending.length ∧ l'.Remains n := by
  obtain ⟨m, hm, ⟨t', hp', -, rfl⟩ | ⟨hp', -⟩⟩ := hn.step hl h
  · exact ⟨by rw [hp', List.length_cons], hm⟩
  · exact absurd hp' hp

theorem Remains.descends (hn : l.Remains n) (hl : l.Valid) (h : l.nextToken = (.ok o, l'))
    (hne : o ≠ .ended) : ∃ m, l'.Remains m ∧ m + l'.pending.length < n + l.pending.length := by
  obtain ⟨m, hm, hcases⟩ := hn.step hl h
  refine ⟨m, hm, ?_⟩
  rcases hcases with ⟨t, hp, -, rfl⟩ | ⟨hp, hp', hlen, htext⟩
  · rw [hp, List.length_cons]
    omega
  · have hpos := List.length_pos_iff.2 (htext hne)
    rw [hp, hp']
    omega

theorem Remains.exists_drains (hn : l.Remains n) (hl : l.Valid) :
    ∃ os stop l', l.Drains os stop l' ∧ os.length ≤ n + l.pending.length := by
  -- on the units and tokens still to come, which every outcome lowers
  induction hk : n + l.pending.length using Nat.strong_induction_on generalizing l n with
  | _ k ih =>
    cases hstep : l.nextToken with
    | mk answer l' =>
      cases answer with
      | error e => exact ⟨[], _, l', .failed hstep, Nat.zero_le _⟩
      | ok o =>
        by_cases hne : o = .ended
        · subst hne
          exact ⟨[], _, l', .ended hstep, Nat.zero_le _⟩
        · obtain ⟨m, hm, hlt⟩ := hn.descends hl hstep hne
          rw [hk] at hlt
          obtain ⟨os, stop, last, hdrains, hle⟩ :=
            ih _ hlt hm (accounts_nextToken hl hstep).valid rfl
          exact ⟨o :: os, stop, last, .step hstep hne hdrains, Nat.lt_of_le_of_lt hle hlt⟩

theorem Drains.exists_passes {os : List (Outcome ι)} {stop : Except StreamError Unit}
    (h : l.Drains os stop l') : ∃ way, l.Passes way ∧ way.skipped.length ≤ os.length := by
  induction h with
  | @step l l' l'' o os stop hn hne _ ih =>
    cases o with
    | matched t => exact ⟨_, .matched hn, Nat.zero_le _⟩
    | skipped c =>
      obtain ⟨way, hway, hle⟩ := ih
      exact ⟨_, .skipped hn hway, Nat.succ_le_succ hle⟩
    | ended => exact absurd rfl hne
  | ended hn => exact ⟨_, .ended hn, Nat.zero_le _⟩
  | failed hn => exact ⟨_, .failed hn, Nat.zero_le _⟩

end Lexer

def Passage.steps (way : Passage σ ι) : Nat := way.skipped.length + 1

namespace Parser

/-- A parser that is called until the end or an error: its tokens, and how many steps of the lexer
all the calls take. An exhausted one takes none. -/
inductive Runs : Parser σ ι → List (Token ι) → Except StreamError Unit → Nat → Prop
  | matched {p : Parser σ ι} {way : Passage σ ι} {t : Token ι} {ts : List (Token ι)}
      {stop : Except StreamError Unit} {n : Nat} :
      p.phase = .running → p.lexer.Passes way → way.result = .ok (.matched t) →
        Runs (p.settle way).2 ts stop n → Runs p (t :: ts) stop (way.steps + n)
  | ended {p : Parser σ ι} {way : Passage σ ι} : p.phase = .running → p.lexer.Passes way →
      way.result = .ok .endOfStream → Runs p [] (.ok ()) way.steps
  | failed {p : Parser σ ι} {way : Passage σ ι} {e : StreamError} : p.phase = .running →
      p.lexer.Passes way → way.result = .error e → Runs p [] (.error e) way.steps
  | exhausted {p : Parser σ ι} : p.phase = .exhausted → Runs p [] (.ok ()) 0

variable {p : Parser σ ι} {l l' : Lexer σ ι} {ts : List (Token ι)}
  {stop : Except StreamError Unit}

theorem Runs.skipped {n : Nat} {c : Char} (hp : p.phase = .running)
    (hn : p.lexer.nextToken = (.ok (.skipped c), l'))
    (h : (p.note (.skipped c) l').Runs ts stop n) : p.Runs ts stop (n + 1) := by
  have hpasses : ∀ {way}, (p.note (.skipped c) l').lexer.Passes way →
      p.lexer.Passes { way with skipped := c :: way.skipped } := fun hway => .skipped hn hway
  generalize hq : p.note (.skipped c) l' = q at h hpasses
  cases h with
  | @matched _ way t ts stop n hphase hway hr hrest =>
    subst hq
    have hsettle := p.settle_skipped c way
    have hsteps : way.steps + n + 1 =
        Passage.steps { way with skipped := c :: way.skipped } + n := by
      simp only [Passage.steps, List.length_cons]
      omega
    rw [hsteps]
    refine .matched hp (hpasses hway) hr ?_
    rw [hsettle]
    exact hrest
  | ended _ hway hr => exact .ended hp (hpasses hway) hr
  | failed _ hway hr => exact .failed hp (hpasses hway) hr
  | exhausted hphase =>
    subst hq
    cases hp.symm.trans hphase

theorem runs_of_drains {os : List (Outcome ι)} (h : p.lexer.Drains os stop l')
    (hp : p.phase = .running) : p.Runs (os.filterMap Outcome.token?) stop (os.length + 1) := by
  generalize hl : p.lexer = l at h
  induction h generalizing p with
  | @step l l' l'' o os stop hn hne _ ih =>
    subst hl
    cases o with
    | ended => exact absurd rfl hne
    | skipped c => exact (ih (p := p.note (.skipped c) l') hp rfl).skipped hp hn
    | matched t =>
      have hrest := ih (p := p.note (.matched t) l') hp rfl
      rw [List.length_cons, Nat.add_comm (os.length + 1)]
      exact .matched hp (.matched hn) rfl hrest
  | @ended l l' hn =>
    subst hl
    exact .ended hp (.ended hn) rfl
  | @failed l l' e hn =>
    subst hl
    exact .failed hp (.failed hn) rfl

/-- Over a source that stops, a lexer in any state has a number of units in its buffer or still to
come. A character dropped lowers it by one, a token from the stream by the length of the token, and
a token handed back leaves it as it is. So no more steps than there are units and tokens waiting,
and one more, lead to the end or an error, in one call of a parser or in many. -/
theorem runs_within {g : Grammar ι} {s : σ} {us : List Char} {source : Reply Char}
    (hs : Delivers s us source) (hl : l.Reachable g s) :
    ∃ n, l.Remains n ∧ (∀ m, l.Remains m → m = n) ∧
      (∀ c l', l.nextToken = (.ok (.skipped c), l') →
        l'.pending = l.pending ∧ ∃ m, l'.Remains m ∧ m + 1 = n) ∧
      (∀ t l', l.pending = [] → l.nextToken = (.ok (.matched t), l') →
        l'.pending = [] ∧ 0 < t.length ∧ ∃ m, l'.Remains m ∧ m + t.length = n) ∧
      (∀ t l', l.pending ≠ [] → l.nextToken = (.ok (.matched t), l') →
        l'.pending.length + 1 = l.pending.length ∧ l'.Remains n) ∧
      (∃ os stop l', l.Drains os stop l' ∧ os.length + 1 ≤ n + l.pending.length + 1) ∧
      ∀ p : Parser σ ι, p.lexer = l →
        (p.phase = .running → ∃ way, l.Passes way ∧ p.Parses (p.settle way) ∧
          way.steps ≤ n + l.pending.length + 1) ∧
        ∃ ts stop steps, p.Runs ts stop steps ∧ steps ≤ n + l.pending.length + 1 := by
  obtain ⟨n, hn⟩ := hl.remains hs
  obtain ⟨-, hvalid⟩ := hl.valid
  obtain ⟨os, stop, last, hdrains, hle⟩ := hn.exists_drains hvalid
  refine ⟨n, hn, fun m hm => hm.unique hn, fun c l' => hn.of_skipped hvalid,
    fun t l' hp => hn.of_matched hvalid hp, fun t l' hp => hn.of_waiting hvalid hp,
    ⟨os, stop, last, hdrains, Nat.succ_le_succ hle⟩, ?_⟩
  rintro p rfl
  refine ⟨fun hp => ?_, ?_⟩
  · obtain ⟨way, hway, hskipped⟩ := hdrains.exists_passes
    exact ⟨way, hway, .running hp hway, Nat.succ_le_succ (Nat.le_trans hskipped hle)⟩
  · cases hp : p.phase with
    | running => exact ⟨_, _, _, runs_of_drains hdrains hp, Nat.succ_le_succ hle⟩
    | exhausted => exact ⟨[], _, 0, .exhausted hp, Nat.zero_le _⟩

theorem runs_within_halfUsed :
    Delivers ['a', 'b', 'd', 'x'] ['a', 'b', 'd', 'x'] .ended ∧
      halfUsed.Reachable overlapping ['a', 'b', 'd', 'x'] ∧ halfUsed.Remains 3 ∧
      ∃ ts stop steps, Runs { lexer := halfUsed } ts stop steps ∧ steps ≤ 3 + 1 + 1 := by
  have hs := delivers_list ['a', 'b', 'd', 'x']
  have hl : halfUsed.Reachable overlapping ['a', 'b', 'd', 'x'] :=
    .pushBack _ (.nextToken .create)
  have hstage : halfUsed.channel.stage = .open := by cbv
  have hsource : halfUsed.channel.source = ['x'] := by cbv
  have hbuffered : halfUsed.channel.buffered = 2 := by cbv
  have hpending : halfUsed.pending.length = 1 := by cbv
  have hremains : halfUsed.Remains 3 := by
    refine ⟨['x'], ?_, by rw [hbuffered]; rfl⟩
    rw [hstage, hsource]
    exact .open (delivers_list _)
  obtain ⟨n, -, hunique, -, -, -, -, hruns⟩ := runs_within hs hl
  obtain ⟨-, ts, stop, steps, hrun, hle⟩ := hruns { lexer := halfUsed } rfl
  rw [hpending, ← hunique 3 hremains] at hle
  exact ⟨hs, hl, hremains, ts, stop, steps, hrun, hle⟩

end Parser

end Munch
