import Munch.Proofs.Indexed
import Munch.Proofs.Lifecycle
import Munch.Proofs.Room

namespace Munch

variable {σ ι : Type}

namespace Search

variable [Source σ Char] {s : Search ι} {c : Channel σ Char}

def calls (s : Search ι) (c : Channel σ Char) : List (Channel.Call Char) :=
  if _h : s.viable = [] then []
  else .read ::
    match c.read with
    | (.ok (some u), c) => (s.advance u).calls c
    | _ => []
termination_by s.measure
decreasing_by exact s.measure_advance_lt u _h

theorem session_calls (s : Search ι) (c : Channel σ Char) :
    (c.session (s.calls c)).2 = (s.run c).2 := by
  induction s, c using run.induct with
  | case1 s c hv =>
    rw [calls, dif_pos hv, run, dif_pos hv]
    rfl
  | case2 s c hv e d hr =>
    rw [calls, dif_neg hv, run, dif_neg hv, Channel.session_cons, Channel.perform, hr]
    rfl
  | case3 s c hv d hr =>
    rw [calls, dif_neg hv, run, dif_neg hv, Channel.session_cons, Channel.perform, hr]
    rfl
  | case4 s c hv u d hr ih =>
    rw [calls, dif_neg hv, run, dif_neg hv, Channel.session_cons, Channel.perform, hr]
    exact ih

theorem eq_read_of_mem_calls (s : Search ι) (c : Channel σ Char) :
    ∀ call ∈ s.calls c, call = .read := by
  induction s, c using run.induct with
  | case1 s c hv =>
    rw [calls, dif_pos hv]
    exact List.forall_mem_nil _
  | case2 s c hv e d hr =>
    rw [calls, dif_neg hv, hr]
    exact List.forall_mem_singleton.2 rfl
  | case3 s c hv d hr =>
    rw [calls, dif_neg hv, hr]
    exact List.forall_mem_singleton.2 rfl
  | case4 s c hv u d hr ih =>
    rw [calls, dif_neg hv, hr]
    exact List.forall_mem_cons.2 ⟨rfl, ih⟩

theorem length_calls_le {m : Nat} (hs : s.Ongoing) (hm : ∀ k ∈ s.viable, k.rest.length ≤ m) :
    (s.calls c).length ≤ m := by
  induction m generalizing s c with
  | zero =>
    have hv : s.viable = [] := by
      apply List.eq_nil_iff_forall_not_mem.2
      intro k hk
      exact hs k hk (List.length_eq_zero_iff.1 (Nat.le_zero.1 (hm k hk)))
    rw [calls, dif_pos hv]
    exact Nat.zero_le _
  | succ m ih =>
    rw [calls]
    split
    · exact Nat.zero_le _
    · split
      · exact Nat.succ_le_succ (ih (.advance s _) (length_rest_advance hm _))
      · exact Nat.succ_le_succ (Nat.zero_le _)

theorem allowance_run {t : Search ι} {d : Channel σ Char} (h : s.run c = (.ok t, d)) :
    d.allowance + s.text.length ≤ c.allowance + t.text.length := by
  induction s, c using run.induct with
  | case1 s c hv =>
    rw [run, dif_pos hv] at h
    cases h
    exact Nat.le_refl _
  | case2 s c hv e d' hr =>
    rw [run, dif_neg hv, hr] at h
    cases h
  | case3 s c hv d' hr =>
    have hle := c.reading.allowance_le
    rw [run, dif_neg hv, hr] at h
    rw [hr] at hle
    cases h
    exact Nat.add_le_add_right hle _
  | case4 s c hv u d' hr ih =>
    have hle := c.reading.allowance_le
    rw [run, dif_neg hv, hr] at h
    rw [hr] at hle
    have hrest := ih h
    simp only [text_advance, List.length_cons, Stack.unitsOf, List.length_nil] at hrest hle
    omega

end Search

namespace Lexer

variable [Source σ Char] {l : Lexer σ ι} {g : Grammar ι} {s : σ}

def calls (l : Lexer σ ι) : List (Channel.Call Char) :=
  if l.channel.isClosed then []
  else
    match l.pending with
    | _ :: _ => []
    | [] => (Search.start l.grammar).calls l.channel ++
      match (Search.start l.grammar).run l.channel with
      | (.error _, _) => []
      | (.ok s, channel) =>
        match s.verdict with
        | none => []
        | some (_, kept) => channel.unreading (s.text.take (s.text.length - kept))

theorem session_calls (l : Lexer σ ι) :
    (l.channel.session l.calls).2 = l.nextToken.2.channel := by
  have hsearch := Search.session_calls (.start l.grammar) l.channel
  rw [calls, nextToken]
  cases l.channel.isClosed with
  | true => rfl
  | false =>
    cases l.pending with
    | cons t pending => rfl
    | nil =>
      simp only [Bool.false_eq_true, if_false, Channel.session_append, hsearch]
      cases (Search.start l.grammar).run l.channel with
      | mk found c =>
        cases found with
        | error e => rfl
        | ok s =>
          cases hv : s.verdict with
          | none => simp only [hv]; rfl
          | some verdict =>
            simp only [hv, Channel.session_unreading]
            cases c.unread (s.text.take (s.text.length - verdict.2)) with
            | mk answer d => cases answer <;> rfl

inductive Calling (l : Lexer σ ι) : List (Channel.Call Char) → Prop
  | nothing : Calling l []
  | failed : ((Search.start l.grammar).run l.channel).2.isClosed = true →
      Calling l ((Search.start l.grammar).calls l.channel)
  | ended {t : Search ι} {d : Channel σ Char} :
      (Search.start l.grammar).run l.channel = (.ok t, d) → t.text = [] →
        Calling l ((Search.start l.grammar).calls l.channel)
  | unreading {d : Channel σ Char} {surplus : List Char} :
      surplus.length ≤ l.grammar.maxLength - 1 →
      ((Search.start l.grammar).run l.channel).2.unread surplus = (.ok (), d) →
        Calling l ((Search.start l.grammar).calls l.channel ++
          ((Search.start l.grammar).run l.channel).2.unreading surplus)

theorem calling (h : l.Valid) : l.Calling l.calls := by
  obtain ⟨v, hv⟩ := h
  obtain ⟨c, hrun, hc, -⟩ := run_start hv
  cases hclosed : l.channel.isClosed with
  | true => rw [calls, if_pos hclosed]; exact .nothing
  | false =>
    cases hp : l.pending with
    | cons t pending => rw [calls, hclosed, if_neg Bool.false_ne_true, hp]; exact .nothing
    | nil =>
      rw [calls, hclosed, if_neg Bool.false_ne_true, hp, hrun]
      cases hf : (l.grammar.ahead v).fault with
      | some e =>
        have hd : ((Search.start l.grammar).run l.channel).2 = c := by rw [hrun]
        simp only [Scan.answer, hf, List.append_nil]
        exact .failed (hd ▸ hc.isClosed_iff.2 (Stack.closed_scan hf))
      | none =>
        by_cases hu : (l.grammar.ahead v).units = []
        · -- the first read met the end
          simp only [Scan.answer, hf, hu] at hrun
          simp only [Scan.answer, hf, hu, Search.verdict_after_nil, List.append_nil]
          exact .ended hrun rfl
        · -- at least one of the characters read is kept, so one less than `maxLength` goes back
          have hkept := (l.grammar.text_first_isPrefix (l.grammar.ahead v).units).length_le
          have hpos := List.length_pos_iff.2 (l.grammar.text_first_ne_nil hu)
          have hlen : (l.grammar.ahead v).units.length ≤ l.grammar.maxLength :=
            Nat.le_trans (Stack.length_scan_le _ v) (l.grammar.depth_le_maxLength v)
          simp only [Scan.granted, hf, Nat.zero_add] at hc
          obtain ⟨d, hunread, -⟩ := unread_surplus hf (hv.isOpen hclosed)
            (Nat.le_of_add_left_le hv.room) hc hpos hkept
          have hd : ((Search.start l.grammar).run l.channel).2 = c := by rw [hrun]
          simp only [Scan.answer, hf, Search.verdict_after _ hu, Search.surplus_after]
          rw [← hd] at hunread ⊢
          refine .unreading ?_ hunread
          rw [List.length_reverse, List.length_drop]
          omega

namespace Calling

variable {calls : List (Channel.Call Char)}

theorem countP_le (h : l.Calling calls) :
    calls.countP Channel.Call.isRead ≤ l.grammar.maxLength ∧
      calls.countP Channel.Call.isPushBack ≤ l.grammar.maxLength - 1 := by
  have hreads := (Search.start l.grammar).eq_read_of_mem_calls l.channel
  have hlen : ((Search.start l.grammar).calls l.channel).length ≤ l.grammar.maxLength :=
    Search.length_calls_le (.start l.grammar) (Search.length_rest_start l.grammar)
  have hread := Nat.le_trans (List.countP_le_length (p := Channel.Call.isRead)) hlen
  have hnone : ((Search.start l.grammar).calls l.channel).countP Channel.Call.isPushBack = 0 := by
    apply List.countP_eq_zero.2
    intro call hcall
    rw [hreads call hcall]
    exact Bool.false_ne_true
  cases h with
  | nothing => exact ⟨Nat.zero_le _, Nat.zero_le _⟩
  | failed _ => exact ⟨hread, hnone ▸ Nat.zero_le _⟩
  | ended _ _ => exact ⟨hread, hnone ▸ Nat.zero_le _⟩
  | @unreading d surplus hsurplus _ =>
    have hunreading := ((Search.start l.grammar).run l.channel).2.countP_unreading surplus
    rw [List.countP_append, List.countP_append, hnone, hunreading.2, Nat.zero_add]
    exact ⟨hread, Nat.le_trans hunreading.1 hsurplus⟩

theorem no_underflow (h : l.Calling calls) :
    ∀ e ∈ (l.channel.session calls).1, e.error? ≠ some .underflow := by
  have hsearch := Search.session_calls (.start l.grammar) l.channel
  have hreads := Channel.no_underflow_reads (c := l.channel)
    ((Search.start l.grammar).eq_read_of_mem_calls l.channel)
  cases h with
  | nothing => exact List.forall_mem_nil _
  | failed _ => exact hreads
  | ended _ _ => exact hreads
  | unreading _ hunread =>
    rw [Channel.session_append, hsearch]
    intro e he
    rcases List.mem_append.1 he with he | he
    · exact hreads e he
    · rw [Channel.no_error_unreading hunread e he]
      nofun

theorem allowance_eq (h : l.Calling calls) (ha : l.channel.allowance = 0)
    (hf : (l.channel.session calls).2.Fits (l.grammar.maxLength - 1)) :
    (l.channel.session calls).2.allowance = 0 := by
  have hsearch := Search.session_calls (.start l.grammar) l.channel
  cases h with
  | nothing => exact ha
  | failed hc =>
    rw [← hsearch] at hc
    exact hf.allowance_of_closed hc
  | ended hrun ht =>
    have hle := Search.allowance_run hrun
    rw [ht, ha, Search.text_start] at hle
    rw [hsearch, hrun]
    exact Nat.le_zero.1 hle
  | unreading _ hunread =>
    rw [Channel.session_append, hsearch, Channel.session_unreading, hunread]
    rfl

end Calling

theorem fits_calls (h : l.Valid) (hf : l.channel.Fits (l.grammar.maxLength - 1))
    (calls : List (Channel.Call Char)) :
    (l.channel.session calls).2.Fits (l.grammar.maxLength - 1) := by
  obtain ⟨v, hv⟩ := h
  exact hv.fits_session hf calls

theorem Reachable.fits (h : l.Reachable g s) :
    l.channel.Fits (l.grammar.maxLength - 1) ∧ l.channel.allowance = 0 := by
  induction h with
  | create => exact ⟨.create _ _, rfl⟩
  | @nextToken l hl ih =>
    obtain ⟨-, hvalid⟩ := hl.valid
    have hfits := fits_calls hvalid ih.1 l.calls
    have hallowance := (calling hvalid).allowance_eq ih.2 hfits
    rw [session_calls] at hfits hallowance
    rw [((stepping hvalid).accounts hvalid).grammar_eq]
    exact ⟨hfits, hallowance⟩
  | @pushBack l t _ ih =>
    rw [Lexer.pushBack]
    split
    · exact ih
    · exact ih
  | @close l hl ih =>
    obtain ⟨-, hvalid⟩ := hl.valid
    exact ⟨fits_calls hvalid ih.1 [.close], Channel.allowance_close ih.1.allowance_of_closed⟩

theorem nextToken_ne_underflow (h : l.Valid) : l.nextToken.1 ≠ .error .underflow := by
  intro he
  cases ho : l.channel.isClosed with
  | true => rw [nextToken_of_closed ho] at he; cases he
  | false =>
    obtain ⟨cause, hcause⟩ := (stepping h).error_eq_failed ho he
    cases hcause

omit [Source σ Char] in
theorem pushBack_ne_underflow (l : Lexer σ ι) (t : Token ι) :
    (l.pushBack t).1 ≠ .error .underflow := by
  intro he
  rw [pushBack] at he
  split at he <;> cases he

end Lexer

def Act.error? : Act ι → Option StreamError
  | .answer a => a.fault?
  | .walk => none
  | .close (.error e) => some e
  | .close (.ok ()) => none

theorem Act.close_ne_underflow {result : Except StreamError Unit}
    (h : result ≠ .error .underflow) : (Act.close result : Act ι).error? ≠ some .underflow := by
  cases result with
  | ok _ => nofun
  | error e =>
    intro he
    exact h (congrArg Except.error (Option.some.inj he))

theorem Standing.answer_ne_underflow {st st' : Standing} {a : Answer ι}
    (h : st.move (.answer a) = some st') : a.fault? ≠ some .underflow := by
  unfold move at h
  split at h <;> simp_all [Answer.fault?]

variable [Source σ Char] {g : Grammar ι} {s : σ}

theorem Tokens.Does.ne_underflow {ts ts' : Tokens σ ι} {act : Act ι} (h : ts.Does act ts')
    (hp : ts.parser.lexer.Reachable g s) (hs : ts.Sound) : act.error? ≠ some .underflow := by
  have hmove := (h.move hp hs).1
  cases h with
  | parseOne _ => exact Standing.answer_ne_underflow hmove
  | next _ => exact Standing.answer_ne_underflow hmove
  | walk => nofun
  | close => exact Act.close_ne_underflow ts.parser.lexer.channel.close_ne_underflow

theorem Life.ne_underflow {ts ts' : Tokens σ ι} {acts : List (Act ι)} (h : Life ts acts ts')
    (hp : ts.parser.lexer.Reachable g s) (hs : ts.Sound) :
    ∀ act ∈ acts, act.error? ≠ some .underflow := by
  induction h with
  | nil => exact List.forall_mem_nil _
  | cons hact _ ih =>
    have hrest := ih (hact.reachable hp) (hact.move hp hs).2
    exact List.forall_mem_cons.2 ⟨hact.ne_underflow hp hs, hrest⟩

namespace Lexer

variable {l : Lexer σ ι}

/-- The bounds of a lexer of the grammar `g`, those of its next step, and that no check stops what
it does next. -/
structure Bounded (g : Grammar ι) (l : Lexer σ ι) : Prop where
  fits : l.channel.Fits (g.maxLength - 1)
  allowance_eq : l.channel.allowance = 0
  calls_eq : (l.channel.session l.calls).2 = l.nextToken.2.channel
  /-- In the middle of the step too, after any number of its calls. -/
  during (n : Nat) : (l.channel.session (l.calls.take n)).2.Fits (g.maxLength - 1)
  reads_le : l.calls.countP Channel.Call.isRead ≤ g.maxLength
  pushBacks_le : l.calls.countP Channel.Call.isPushBack ≤ g.maxLength - 1
  no_underflow : ∀ e ∈ (l.channel.session l.calls).1, e.error? ≠ some .underflow
  nextToken_ne : l.nextToken.1 ≠ .error .underflow
  pushBack_ne (t : Token ι) : (l.pushBack t).1 ≠ .error .underflow
  close_ne : l.close.1 ≠ .error .underflow
  nextToken? : l.nextToken? = some l.nextToken
  close? : l.close? = some l.close

theorem Reachable.bounded (h : l.Reachable g s) : l.Bounded g := by
  obtain ⟨rfl, hvalid⟩ := h.valid
  obtain ⟨hfits, hallowance⟩ := h.fits
  obtain ⟨hreads, hpushBacks⟩ := (calling hvalid).countP_le
  exact {
    fits := hfits
    allowance_eq := hallowance
    calls_eq := l.session_calls
    during := fun n => fits_calls hvalid hfits _
    reads_le := hreads
    pushBacks_le := hpushBacks
    no_underflow := (calling hvalid).no_underflow
    nextToken_ne := nextToken_ne_underflow hvalid
    pushBack_ne := l.pushBack_ne_underflow
    close_ne := l.channel.close_ne_underflow
    nextToken? := nextToken?_eq hvalid
    close? := close?_eq hvalid }

/-- Whatever is done with a lexer, directly or through a parser over it, its bounds hold, and no
call is refused because there is no room. -/
theorem bounded_of_life (hl : l.Reachable g s) {acts : List (Act ι)} {ts : Tokens σ ι}
    (h : Life (Parser.tokens { lexer := l }) acts ts) :
    create? g s = some (create g s) ∧ ts.parser.lexer.Bounded g ∧
      ∀ act ∈ acts, act.error? ≠ some .underflow :=
  ⟨create?_eq g s, (h.reachable hl).bounded, h.ne_underflow hl nofun⟩

/-- Two characters are read ahead of the longest literal's three, so the buffer was full. -/
theorem bounded_of_life_halfUsed :
    halfUsed.Reachable overlapping ['a', 'b', 'd', 'x'] ∧
      ∃ ts, Life (Parser.tokens { lexer := halfUsed })
          [.answer (.parsed (.ok (.matched ⟨"a", 0⟩))), .walk,
            .answer (.yielded (some (.ok ⟨"bd", 2⟩)))] ts ∧
        ts.parser.lexer.channel.highWater = overlapping.maxLength - 1 ∧
        ts.parser.lexer.Bounded overlapping := by
  have hreach : halfUsed.Reachable overlapping ['a', 'b', 'd', 'x'] :=
    .pushBack _ (.nextToken .create)
  have hfirst : halfUsed.nextToken.1 = .ok (.matched ⟨"a", 0⟩) := by cbv
  have hsecond : halfUsed.nextToken.2.nextToken.1 = .ok (.matched ⟨"bd", 2⟩) := by cbv
  have hfull : halfUsed.nextToken.2.nextToken.2.channel.highWater =
      overlapping.maxLength - 1 := by cbv
  have hlife : Life (Parser.tokens { lexer := halfUsed }) _ _ :=
    .cons (.parseOne (.running rfl (.matched (Prod.ext hfirst rfl)))) <| .cons .walk <|
      .cons (.next (.parse rfl (.running rfl (.matched (Prod.ext hsecond rfl))))) .nil
  exact ⟨hreach, _, hlife, hfull, (bounded_of_life hreach hlife).2.1⟩

end Lexer

end Munch
