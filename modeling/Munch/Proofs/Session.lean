import Mathlib
import Munch.Proofs.Channel

namespace Munch

open Stream' (Seq)

variable {σ υ : Type}

namespace Channel

inductive Call (υ : Type)
  | read
  | pushBack (u : υ)
  | commit
  | close

inductive Event (υ : Type)
  | read (answer : Except StreamError (Option υ))
  | pushBack (u : υ) (answer : Except StreamError Unit)
  | commit
  | close (answer : Except StreamError Unit)

namespace Event

def hold (held : List υ) : Event υ → List υ
  | .read (.ok (some u)) => u :: held
  | .pushBack _ (.ok ()) => held.tail
  | _ => held

def HandsBack (held : List υ) : Event υ → Prop
  | .pushBack u (.ok ()) => held.head? = some u
  | _ => True

end Event

def held (events : List (Event υ)) : List υ := events.foldl Event.hold []

def HandsBack : List υ → List (Event υ) → Prop
  | _, [] => True
  | held, e :: es => e.HandsBack held ∧ HandsBack (e.hold held) es

variable [Source σ υ]

def perform (c : Channel σ υ) : Call υ → Event υ × Channel σ υ
  | .read => (.read c.read.1, c.read.2)
  | .pushBack u => (.pushBack u (c.pushBack u).1, (c.pushBack u).2)
  | .commit => (.commit, c.commit)
  | .close => (.close c.close.1, c.close.2)

def session (c : Channel σ υ) : List (Call υ) → List (Event υ) × Channel σ υ
  | [] => ([], c)
  | call :: calls =>
    let (event, d) := c.perform call
    let (events, d) := d.session calls
    (event :: events, d)

theorem session_cons (c : Channel σ υ) (call : Call υ) (calls : List (Call υ)) :
    c.session (call :: calls) = ((c.perform call).1 :: ((c.perform call).2.session calls).1,
      ((c.perform call).2.session calls).2) := rfl

end Channel

def Source.units [Source σ υ] (s : σ) : Seq υ :=
  .corec (fun s =>
    match Source.next s with
    | (.unit u, s) => some (u, s)
    | _ => none) s

namespace Source

variable [Source σ υ] {s s' : σ}

theorem units_of_unit {u : υ} (h : Source.next s = (.unit u, s')) :
    (units s : Seq υ) = .cons u (units s') := by
  rw [units, Seq.corec_cons (by rw [h]), units]

theorem units_of_stop {stop : Reply υ} (h : Source.next s = (stop, s'))
    (hstop : ∀ u, stop ≠ .unit u) : (units s : Seq υ) = .nil := by
  rw [units, Seq.corec_nil]
  rw [h]
  cases stop with
  | unit u => exact absurd rfl (hstop u)
  | ended => rfl
  | failed e => rfl

end Source

namespace Stack

variable [Source σ υ]

def follow (v : Stack σ υ) : Channel.Event υ → Stack σ υ
  | .read _ => v.read.2
  | .pushBack u (.ok ()) => v.unread [u]
  | .pushBack _ (.error _) => v
  | .commit => v
  | .close _ => v.close

def upcoming (v : Stack σ υ) : Seq υ :=
  match v.stage with
  | .open => Source.units v.source
  | _ => .nil

def Parts (v : Stack σ υ) (held : List υ) (whole : Seq υ) : Prop :=
  v.IsOpen → Seq.append (.ofList (held.reverse ++ v.waiting)) v.upcoming = whole

variable {v w : Stack σ υ} {held : List υ} {whole : Seq υ}

theorem Parts.ofSource (s : σ) : (ofSource s).Parts [] (Source.units s : Seq υ) :=
  fun _ => Seq.nil_append _

theorem Parts.reading (h : v.Parts held whole)
    {out : Except StreamError (Option υ) × Stack σ υ} (hr : v.Reading out) :
    out.2.Parts (Channel.Event.hold held (.read out.1)) whole := by
  cases hr with
  | closed hs => exact h
  | @waiting u us ho hw =>
    intro _
    rw [← h ho, hw]
    simp only [Channel.Event.hold, List.reverse_cons, List.append_assoc, List.cons_append,
      List.nil_append]
    rfl
  | ended hs hw => exact h
  | @unit u s hs hw hn =>
    intro _
    rw [← h (isOpen_of_open hs)]
    simp only [Channel.Event.hold, upcoming, hs, hw, List.append_nil, List.reverse_cons,
      Source.units_of_unit hn, Seq.ofList_append, Seq.append_assoc, Seq.ofList_cons,
      Seq.ofList_nil, Seq.cons_append, Seq.nil_append]
  | last hs hw hn =>
    intro _
    rw [← h (isOpen_of_open hs)]
    simp only [Channel.Event.hold, upcoming, hs, Source.units_of_stop hn (by simp)]
  | failed hs hw hn =>
    intro ho
    exact absurd rfl (ho _)

theorem Parts.follow (h : v.Parts held whole) {e : Channel.Event υ}
    (hr : ∀ a, e = .read a → a = v.read.1) (hb : e.HandsBack held) :
    (v.follow e).Parts (e.hold held) whole := by
  match e with
  | .read a =>
    rw [hr a rfl]
    exact h.reading v.reading
  | .pushBack u (.ok ()) =>
    intro ho
    cases held with
    | nil => cases hb
    | cons a held =>
      cases hb
      rw [← h ho]
      simp only [Stack.follow, Channel.Event.hold, unread, upcoming, List.tail_cons,
        List.reverse_cons, List.append_assoc, List.cons_append, List.nil_append]
  | .pushBack u (.error _) => exact h
  | .commit => exact h
  | .close _ =>
    intro ho
    rcases v.close_cases with heq | ⟨-, heq⟩
    · rw [Stack.follow, heq] at ho ⊢
      exact h ho
    · rw [Stack.follow, heq] at ho
      exact absurd rfl (ho _)

end Stack

namespace Channel

variable [Source σ υ] {c : Channel σ υ} {v : Stack σ υ} {capacity : Nat}

theorem Refines.follow_pushBack (h : c.Refines v capacity 0) (u : υ) :
    (c.pushBack u).2.Refines (v.follow (.pushBack u (c.pushBack u).1)) capacity 0 := by
  rcases c.pushBack_cases u with ⟨e, he⟩ | ⟨-, ha, hok⟩
  · rw [he]
    exact h
  · rw [hok]
    exact h.accept ha u

theorem Refines.perform (h : c.Refines v capacity 0) (call : Call υ) :
    (c.perform call).2.Refines (v.follow (c.perform call).1) capacity 0 := by
  cases call with
  | read =>
    obtain ⟨d, hd, href⟩ := h.read
    rw [Channel.perform, hd]
    exact href.mono (Nat.zero_le _)
  | pushBack u => exact h.follow_pushBack u
  | commit => exact h.commit
  | close => exact h.close

theorem Refines.answer_perform (h : c.Refines v capacity 0) {call : Call υ}
    {answer : Except StreamError (Option υ)} (he : (c.perform call).1 = .read answer) :
    answer = v.read.1 := by
  cases call with
  | read =>
    obtain ⟨d, hd, -⟩ := h.read
    rw [Channel.perform, hd] at he
    exact (Event.read.inj he).symm
  | pushBack u => cases he
  | commit => cases he
  | close => cases he

theorem Refines.session (h : c.Refines v capacity 0) (calls : List (Call υ)) :
    (c.session calls).2.Refines ((c.session calls).1.foldl Stack.follow v) capacity 0 := by
  induction calls generalizing c v with
  | nil => exact h
  | cons call calls ih => exact ih (h.perform call)

theorem Refines.answer_session (h : c.Refines v capacity 0) {calls : List (Call υ)}
    {before after : List (Event υ)} {answer : Except StreamError (Option υ)}
    (he : (c.session calls).1 = before ++ .read answer :: after) :
    answer = (before.foldl Stack.follow v).read.1 := by
  induction calls generalizing c v before with
  | nil =>
    rw [Channel.session] at he
    cases before <;> cases he
  | cons call calls ih =>
    rw [session_cons] at he
    cases before with
    | nil => exact h.answer_perform (List.cons.inj he).1
    | cons e before =>
      obtain ⟨rfl, htail⟩ := List.cons.inj he
      exact ih (h.perform call) htail

theorem Refines.parts_session (h : c.Refines v capacity 0) {held : List υ} {whole : Seq υ}
    (hv : v.Parts held whole) {calls : List (Call υ)} (hb : HandsBack held (c.session calls).1) :
    ((c.session calls).1.foldl Stack.follow v).Parts
      ((c.session calls).1.foldl Event.hold held) whole := by
  induction calls generalizing c v held with
  | nil => exact hv
  | cons call calls ih =>
    exact ih (h.perform call) (hv.follow (fun _ => h.answer_perform) hb.1) hb.2

def upcoming (c : Channel σ υ) : Seq υ :=
  match c.stage with
  | .open => Source.units c.source
  | _ => .nil

theorem Refines.upcoming_eq (h : c.Refines v capacity 0) : c.upcoming = v.upcoming := by
  rw [Channel.upcoming, h.stage_eq, h.source_eq, Stack.upcoming]

/-- Each read of a session answers as the stack does that has followed the events before it. While
the channel is open, the units held, those in its buffer and those still to come are, in this
order, what the source delivers, if units are only handed back as they were read. -/
theorem session_eq_stack (s : σ) (capacity : Nat) (calls : List (Call υ)) :
    let events := ((create s capacity).session calls).1
    let c := ((create s capacity).session calls).2
    (∀ before answer after, events = before ++ .read answer :: after →
        answer = (before.foldl Stack.follow (.ofSource s)).read.1) ∧
      (c.isClosed = false → HandsBack [] events →
        Seq.append (.ofList ((held events).reverse ++ c.buffer.toList)) c.upcoming =
          Source.units s) := by
  have hcreate : (create s capacity : Channel σ υ).Refines (.ofSource s) capacity 0 :=
    .create s capacity
  have hlast := hcreate.session calls
  refine ⟨fun before answer after he => hcreate.answer_session he, fun ho hb => ?_⟩
  have hparts := hcreate.parts_session (.ofSource s) hb
  rw [hlast.holds.toList_eq, hlast.upcoming_eq]
  exact hparts (hlast.isOpen ho)

def wrapping : List (Call Nat) :=
  [.read, .read, .pushBack 2, .pushBack 1, .read, .read, .read, .pushBack 3, .read, .pushBack 3]

theorem session_eq_stack_wrapping :
    let events := ((create [1, 2, 3, 4] 2).session wrapping).1
    let c := ((create [1, 2, 3, 4] 2).session wrapping).2
    events = events.take 8 ++ .read (.ok (some 3)) :: events.drop 9 ∧
      .ok (some 3) = ((events.take 8).foldl Stack.follow (.ofSource [1, 2, 3, 4])).read.1 ∧
      c.isClosed = false ∧ HandsBack [] events ∧ held events = [2, 1] ∧ c.buffer.toList = [3] ∧
      Seq.append (.ofList ([1, 2] ++ [3])) c.upcoming = Source.units [1, 2, 3, 4] := by
  have hread : ((create [1, 2, 3, 4] 2).session wrapping).1 =
      ((create [1, 2, 3, 4] 2).session wrapping).1.take 8 ++
        .read (.ok (some 3)) :: ((create [1, 2, 3, 4] 2).session wrapping).1.drop 9 := by cbv
  have hopen : ((create [1, 2, 3, 4] 2).session wrapping).2.isClosed = false := by cbv
  have hback : HandsBack [] ((create [1, 2, 3, 4] 2).session wrapping).1 := by cbv
  have hheld : held ((create [1, 2, 3, 4] 2).session wrapping).1 = [2, 1] := by cbv
  have hbuffer : ((create [1, 2, 3, 4] 2).session wrapping).2.buffer.toList = [3] := by cbv
  obtain ⟨hanswers, hparts⟩ := session_eq_stack [1, 2, 3, 4] 2 wrapping
  have hparts := hparts hopen hback
  rw [hheld, hbuffer] at hparts
  exact ⟨hread, hanswers _ _ _ hread, hopen, hback, hheld, hbuffer, hparts⟩

end Channel

end Munch
