import Munch.Proofs.Lifecycle

namespace Munch

variable {σ ι : Type}

namespace Lexer

inductive Call (ι : Type)
  | next
  | pushBack (t : Token ι)
  | close

inductive Event (ι : Type)
  | next (answer : Except StreamError (Outcome ι))
  | pushBack (t : Token ι) (answer : Except StreamError Unit)
  | close (answer : Except StreamError Unit)

namespace Event

def handed (t : Token ι) : Event ι := .pushBack t (.ok ())

def taken (t : Token ι) : Event ι := .next (.ok (.matched t))

def call : Event ι → Call ι
  | .next _ => .next
  | .pushBack t _ => .pushBack t
  | .close _ => .close

def isStop : Event ι → Bool
  | .next (.error (.failed _)) => true
  | .close _ => true
  | _ => false

def wait (waiting : List (Token ι)) : Event ι → List (Token ι)
  | .next _ => waiting.tail
  | .pushBack t (.ok ()) => t :: waiting
  | .pushBack _ (.error _) => waiting
  | .close _ => []

end Event

structure Turn (σ ι : Type) where
  before : Lexer σ ι
  event : Event ι
  after : Lexer σ ι

namespace Turn

def shown (t : Turn σ ι) : Event ι × Channel σ Char := (t.event, t.after.channel)

def isStacking (t : Turn σ ι) : Bool :=
  match t.event with
  | .next _ => !t.before.pending.isEmpty
  | .pushBack _ _ => true
  | .close _ => false

end Turn

def bare (l : Lexer σ ι) : Lexer σ ι := { l with pending := [] }

theorem bare_of_pending {l : Lexer σ ι} (h : l.pending = []) : l.bare = l := by
  cases l
  cases h
  rfl

theorem pushBack_of_open {l : Lexer σ ι} (h : l.channel.isClosed = false) (t : Token ι) :
    l.pushBack t = (.ok (), { l with pending := t :: l.pending }) := by
  rw [pushBack, h, if_neg Bool.false_ne_true]

theorem pushBack_of_closed {l : Lexer σ ι} (h : l.channel.isClosed = true) (t : Token ι) :
    l.pushBack t = (.error .closed, l) := by
  rw [pushBack, if_pos h]

theorem bare_pushBack (l : Lexer σ ι) (t : Token ι) : (l.pushBack t).2.bare = l.bare := by
  rw [pushBack]
  split <;> rfl

variable [Source σ Char]

def turn (l : Lexer σ ι) : Call ι → Turn σ ι
  | .next => ⟨l, .next l.nextToken.1, l.nextToken.2⟩
  | .pushBack t => ⟨l, .pushBack t (l.pushBack t).1, (l.pushBack t).2⟩
  | .close => ⟨l, .close l.close.1, l.close.2⟩

def session (l : Lexer σ ι) : List (Call ι) → List (Turn σ ι) × Lexer σ ι
  | [] => ([], l)
  | call :: calls =>
    (l.turn call :: ((l.turn call).after.session calls).1, ((l.turn call).after.session calls).2)

theorem session_append (l : Lexer σ ι) (as bs : List (Call ι)) :
    l.session (as ++ bs) = ((l.session as).1 ++ ((l.session as).2.session bs).1,
      ((l.session as).2.session bs).2) := by
  induction as generalizing l with
  | nil => rfl
  | cons a as ih => rw [List.cons_append, session, ih]; rfl

theorem session_split {l : Lexer σ ι} {calls : List (Call ι)} {earlier later : List (Turn σ ι)}
    {now : Turn σ ι} (h : (l.session calls).1 = earlier ++ now :: later) :
    ∃ before call, l.session before = (earlier, now.before) ∧ now = now.before.turn call := by
  induction calls generalizing l earlier with
  | nil =>
    rw [session] at h
    cases earlier <;> cases h
  | cons call calls ih =>
    rw [session] at h
    cases earlier with
    | nil =>
      obtain rfl := (List.cons.inj h).1
      cases call with
      | next => exact ⟨[], .next, rfl, rfl⟩
      | pushBack t => exact ⟨[], .pushBack t, rfl, rfl⟩
      | close => exact ⟨[], .close, rfl, rfl⟩
    | cons first earlier =>
      obtain ⟨rfl, htail⟩ := List.cons.inj h
      obtain ⟨before, last, hbefore, hnow⟩ := ih htail
      exact ⟨call :: before, last, by rw [session, hbefore], hnow⟩

theorem nextToken_of_waiting {l : Lexer σ ι} (h : l.channel.isClosed = false) {t : Token ι}
    {ts : List (Token ι)} (hp : l.pending = t :: ts) :
    l.nextToken = (.ok (.matched t), { l with pending := ts }) := by
  rw [nextToken, h, if_neg Bool.false_ne_true, hp]

variable {l : Lexer σ ι} {g : Grammar ι} {s : σ}

theorem answer_pushBack (h : l.channel.isClosed = false) {call : Call ι} {t : Token ι}
    {answer : Except StreamError Unit} (he : (l.turn call).event = .pushBack t answer) :
    answer = .ok () := by
  cases call with
  | next => cases he
  | close => cases he
  | pushBack t' =>
    rw [turn, pushBack_of_open h] at he
    exact (Event.pushBack.inj he).2.symm

theorem turn_of_waiting (h : l.channel.isClosed = false) {t : Token ι} {ts : List (Token ι)}
    (hp : l.pending = t :: ts) {call : Call ι} {answer : Except StreamError (Outcome ι)}
    (he : (l.turn call).event = .next answer) :
    answer = .ok (.matched t) ∧ (l.turn call).after = { l with pending := ts } := by
  cases call with
  | next =>
    rw [turn, nextToken_of_waiting h hp] at he ⊢
    exact ⟨(Event.next.inj he).symm, rfl⟩
  | pushBack t' => cases he
  | close => cases he

namespace Reachable

theorem turn (h : l.Reachable g s) (call : Call ι) : (l.turn call).after.Reachable g s := by
  cases call with
  | next => exact h.nextToken
  | pushBack t => exact h.pushBack t
  | close => exact h.close

theorem session (h : l.Reachable g s) (calls : List (Call ι)) :
    (l.session calls).2.Reachable g s := by
  induction calls generalizing l with
  | nil => exact h
  | cons call calls ih => exact ih (h.turn call)

theorem isOpen_of_waiting (h : l.Reachable g s) {t : Token ι} {ts : List (Token ι)}
    (hp : l.pending = t :: ts) : l.channel.isClosed = false := by
  rw [← Bool.not_eq_true]
  intro hc
  cases (h.drained hc).2.symm.trans hp

theorem pending_nextToken (h : l.Reachable g s) : l.nextToken.2.pending = l.pending.tail := by
  cases hp : l.pending with
  | cons t ts => rw [nextToken_of_waiting (h.isOpen_of_waiting hp) hp]; rfl
  | nil =>
    have hstep := stepping h.valid.2
    cases hout : l.nextToken with
    | mk answer l' =>
      rw [hout] at hstep
      cases hstep with
      | closed _ => exact hp
      | waiting _ hw => cases hp.symm.trans hw
      | searched _ _ _ _ => exact hp

theorem pending_turn (h : l.Reachable g s) (call : Call ι) :
    (l.turn call).after.pending = (l.turn call).event.wait l.pending := by
  cases call with
  | next => exact h.pending_nextToken
  | pushBack t =>
    cases hc : l.channel.isClosed with
    | true => rw [Lexer.turn, pushBack_of_closed hc]; rfl
    | false => rw [Lexer.turn, pushBack_of_open hc]; rfl
  | close => rfl

theorem pending_session (h : l.Reachable g s) (calls : List (Call ι)) :
    (l.session calls).2.pending =
      ((l.session calls).1.map Turn.event).foldl Event.wait l.pending := by
  induction calls generalizing l with
  | nil => rfl
  | cons call calls ih =>
    rw [Lexer.session, List.map_cons, List.foldl_cons, ← h.pending_turn]
    exact ih (h.turn call)

theorem isOpen_turn (h : l.Reachable g s) (ho : l.channel.isClosed = false) {call : Call ι}
    (hs : (l.turn call).event.isStop = false) :
    (l.turn call).after.channel.isClosed = false := by
  cases call with
  | next =>
    have hstep := stepping h.valid.2
    have hacc := hstep.accounts h.valid.2
    apply hacc.isClosed_eq.2
    cases ha : l.nextToken.1 with
    | ok outcome => exact ⟨outcome, rfl⟩
    | error e =>
      obtain ⟨cause, rfl⟩ := hstep.error_eq_failed ho ha
      rw [Lexer.turn, ha] at hs
      cases hs
  | pushBack t => rw [Lexer.turn, pushBack_of_open ho]; exact ho
  | close => cases hs

theorem isOpen_session (h : l.Reachable g s) (ho : l.channel.isClosed = false)
    (calls : List (Call ι)) (hs : ∀ now ∈ (l.session calls).1, now.event.isStop = false) :
    (l.session calls).2.channel.isClosed = false := by
  induction calls generalizing l with
  | nil => exact ho
  | cons call calls ih =>
    obtain ⟨hfirst, hrest⟩ := List.forall_mem_cons.1 hs
    exact ih (h.turn call) (h.isOpen_turn ho hfirst) hrest

theorem session_bare (h : l.Reachable g s) (calls : List (Call ι)) :
    let others := (l.session calls).1.filter (!·.isStacking)
    others.map Turn.shown = (l.bare.session (others.map (·.event.call))).1.map Turn.shown := by
  induction calls generalizing l with
  | nil => rfl
  | cons call calls ih =>
    have hrest := ih (h.turn call)
    rw [Lexer.session, List.filter_cons]
    cases call with
    | next =>
      cases hp : l.pending with
      | cons t ts =>
        have hnext := nextToken_of_waiting (h.isOpen_of_waiting hp) hp
        have hstacking : (l.turn .next).isStacking = true := by
          rw [Lexer.turn, Turn.isStacking, hp]
          rfl
        have hbare : (l.turn .next).after.bare = l.bare := by
          rw [Lexer.turn, hnext]
          rfl
        rw [hstacking, Bool.not_true, if_neg Bool.false_ne_true]
        rwa [hbare] at hrest
      | nil =>
        have hstacking : (l.turn .next).isStacking = false := by
          rw [Lexer.turn, Turn.isStacking, hp]
          rfl
        have hafter : (l.turn .next).after.bare = (l.turn .next).after :=
          bare_of_pending (by rw [h.pending_turn, hp]; rfl)
        rw [hstacking, Bool.not_false, if_pos rfl, bare_of_pending hp]
        rw [hafter] at hrest
        exact congrArg (List.cons (l.turn .next).shown) hrest
    | pushBack t =>
      rw [Lexer.turn, bare_pushBack] at hrest
      exact hrest
    | close => exact congrArg (List.cons (l.turn .close).shown) hrest

end Reachable

theorem session_pushBack (h : l.channel.isClosed = false) (ts : List (Token ι)) :
    (l.session (ts.map .pushBack)).1.map Turn.event = ts.map .handed ∧
      (l.session (ts.map .pushBack)).2 = { l with pending := ts.reverse ++ l.pending } := by
  induction ts generalizing l with
  | nil => exact ⟨rfl, rfl⟩
  | cons t ts ih =>
    obtain ⟨hevents, hlast⟩ := ih (l := { l with pending := t :: l.pending }) h
    simp only [List.map_cons, session, turn, pushBack_of_open h]
    rw [hevents, hlast, List.reverse_cons, List.append_assoc]
    exact ⟨rfl, rfl⟩

theorem session_take (h : l.channel.isClosed = false) (ts rest : List (Token ι)) :
    let turns := { l with pending := ts ++ rest }.session (.replicate ts.length .next)
    turns.1.map Turn.event = ts.map .taken ∧
      turns.2 = { l with pending := rest } := by
  induction ts with
  | nil => exact ⟨rfl, rfl⟩
  | cons t ts ih =>
    have hnext := nextToken_of_waiting (l := { l with pending := t :: (ts ++ rest) }) h rfl
    simp only [List.cons_append, List.length_cons, List.replicate_succ, session, turn, hnext,
      List.map_cons]
    rw [ih.1, ih.2]
    exact ⟨rfl, rfl⟩

theorem session_undo (h : l.channel.isClosed = false) (ts : List (Token ι)) :
    let again := l.session (ts.reverse.map .pushBack ++ .replicate ts.length .next)
    again.1.map Turn.event = ts.reverse.map .handed ++ ts.map .taken ∧ again.2 = l := by
  obtain ⟨hback, hheld⟩ := session_pushBack h ts.reverse
  obtain ⟨htaken, hlast⟩ := session_take h ts l.pending
  rw [List.reverse_reverse] at hheld
  simp only [session_append, List.map_append]
  rw [hback, hheld, htaken, hlast]
  exact ⟨rfl, rfl⟩

/-- Whatever tokens are handed back to a lexer, and whenever, they are accepted while the stream is
open, and each step takes the last one that still waits. The turns in between show what they show
of a lexer that no token is handed back to. Tokens that are handed back in reverse order come again
in their own order. -/
theorem session_transparent (g : Grammar ι) (s : σ) (calls : List (Call ι)) :
    let turns := ((create g s).session calls).1
    let l := ((create g s).session calls).2
    let others := turns.filter (!·.isStacking)
    (∀ (earlier : List (Turn σ ι)) (now : Turn σ ι) (later : List (Turn σ ι)),
      turns = earlier ++ now :: later →
        now.before.pending = (earlier.map Turn.event).foldl Event.wait [] ∧
        (∀ (t : Token ι) (answer : Except StreamError Unit), now.event = .pushBack t answer →
          (∀ e ∈ earlier, e.event.isStop = false) → answer = .ok ()) ∧
        (∀ (t : Token ι) (ts : List (Token ι)) (answer : Except StreamError (Outcome ι)),
          now.before.pending = t :: ts → now.event = .next answer →
            answer = .ok (.matched t) ∧ now.after = { now.before with pending := ts })) ∧
      others.map Turn.shown =
        ((create g s).session (others.map (·.event.call))).1.map Turn.shown ∧
      ((∀ e ∈ turns, e.event.isStop = false) → ∀ ts : List (Token ι),
        let again := l.session (ts.reverse.map .pushBack ++ .replicate ts.length .next)
        again.1.map Turn.event = ts.reverse.map .handed ++ ts.map .taken ∧ again.2 = l) := by
  have hreach : (create g s).Reachable g s := .create
  have hopen : (create g s).channel.isClosed = false := rfl
  refine ⟨fun earlier now later hturns => ?_, hreach.session_bare calls, fun hs => ?_⟩
  · obtain ⟨before, call, hbefore, hnow⟩ := session_split hturns
    have hreach' := hreach.session before
    have hpending := hreach.pending_session before
    have hopen' := hreach.isOpen_session hopen before
    rw [hbefore] at hreach' hpending hopen'
    refine ⟨hpending, fun t answer he hs => ?_, fun t ts answer hp he => ?_⟩
    · rw [hnow] at he
      exact answer_pushBack (hopen' hs) he
    · have hafter : now.after = (now.before.turn call).after := congrArg Turn.after hnow
      rw [hnow] at he
      rw [hafter]
      exact turn_of_waiting (hreach'.isOpen_of_waiting hp) hp he
  · exact session_undo (hreach.isOpen_session hopen calls hs)

def handing : List (Call Nat) :=
  [.next, .pushBack ⟨"a", 0⟩, .pushBack ⟨"z", 9⟩, .next, .next, .next, .next, .pushBack ⟨"z", 9⟩]

theorem session_transparent_handing :
    let turns := ((create overlapping Parser.shortLived).session handing).1
    turns.map Turn.event =
        [.taken ⟨"a", 0⟩, .handed ⟨"a", 0⟩, .handed ⟨"z", 9⟩, .taken ⟨"z", 9⟩, .taken ⟨"a", 0⟩,
          .next (.ok (.skipped 'x')), .next (.error (.failed ⟨.timedOut, "late"⟩)),
          .pushBack ⟨"z", 9⟩ (.error .closed)] ∧
      (turns.filter (!·.isStacking)).map Turn.shown =
        ((create overlapping Parser.shortLived).session [.next, .next, .next]).1.map
          Turn.shown := by
  have hevents : ((create overlapping Parser.shortLived).session handing).1.map Turn.event =
      [.taken ⟨"a", 0⟩, .handed ⟨"a", 0⟩, .handed ⟨"z", 9⟩, .taken ⟨"z", 9⟩, .taken ⟨"a", 0⟩,
        .next (.ok (.skipped 'x')), .next (.error (.failed ⟨.timedOut, "late"⟩)),
        .pushBack ⟨"z", 9⟩ (.error .closed)] := by cbv
  have hcalls : (((create overlapping Parser.shortLived).session handing).1.filter
      (!·.isStacking)).map (·.event.call) = [.next, .next, .next] := by cbv
  obtain ⟨-, hshown, -⟩ := session_transparent overlapping Parser.shortLived handing
  rw [hcalls] at hshown
  exact ⟨hevents, hshown⟩

end Lexer

end Munch
