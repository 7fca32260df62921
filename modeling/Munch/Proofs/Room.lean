import Munch.Proofs.Session

namespace Munch

variable {σ υ : Type}

namespace Channel

def Call.isRead : Call υ → Bool
  | .read => true
  | _ => false

def Call.isPushBack : Call υ → Bool
  | .pushBack _ => true
  | _ => false

def Event.error? : Event υ → Option StreamError
  | .read (.error e) => some e
  | .pushBack _ (.error e) => some e
  | .close (.error e) => some e
  | _ => none

/-- The buffer has the given room, which was never exceeded, and a closed channel takes nothing
back. -/
structure Fits (c : Channel σ υ) (capacity : Nat) : Prop where
  capacity_eq : c.capacity = capacity
  buffered_le : c.buffered ≤ c.highWater
  highWater_le : c.highWater ≤ capacity
  allowance_of_closed : c.isClosed = true → c.allowance = 0

theorem Fits.create (s : σ) (capacity : Nat) :
    (create s capacity : Channel σ υ).Fits capacity where
  capacity_eq := Ring.capacity_empty capacity
  buffered_le := Nat.le_refl 0
  highWater_le := Nat.zero_le _
  allowance_of_closed := nofun

theorem Fits.commit {c : Channel σ υ} {capacity : Nat} (h : c.Fits capacity) :
    c.commit.Fits capacity := { h with allowance_of_closed := fun _ => rfl }

variable [Source σ υ] {c d : Channel σ υ} {v : Stack σ υ} {capacity n : Nat}

inductive Reading (c : Channel σ υ) : Except StreamError (Option υ) × Channel σ υ → Prop
  | closed : c.isClosed = true → Reading c (.error .closed, c)
  | waiting {u : υ} {buffer : Ring υ} : c.isClosed = false →
      c.buffer.popFront = (some u, buffer) → Reading c (.ok (some u), { c with buffer }.grant)
  | ended {buffer : Ring υ} : c.isClosed = false → c.buffer.popFront = (none, buffer) →
      c.stage = .ended → Reading c (.ok none, { c with buffer })
  | unit {u : υ} {s : σ} {buffer : Ring υ} : c.isClosed = false →
      c.buffer.popFront = (none, buffer) → Source.next c.source = (.unit u, s) →
      Reading c (.ok (some u), { c with buffer, source := s, pulled := c.pulled + 1 }.grant)
  | last {s : σ} {buffer : Ring υ} : c.isClosed = false → c.buffer.popFront = (none, buffer) →
      Source.next c.source = (.ended, s) →
      Reading c (.ok none, { c with buffer, source := s, stage := .ended })
  | failed {e : IoError} {s : σ} {buffer : Ring υ} : c.isClosed = false →
      c.buffer.popFront = (none, buffer) → Source.next c.source = (.failed e, s) →
      Reading c (.error (.failed e), { c with buffer, source := s }.shut.2)

theorem reading (c : Channel σ υ) : c.Reading c.read := by
  rw [read]
  split
  · next hc => exact .closed hc
  · next hc =>
    have ho : c.isClosed = false := by simpa using hc
    split
    · next hp => exact .waiting ho hp
    · next hp =>
      dsimp only
      split
      · next hs => exact .ended ho hp hs
      · rw [pull]
        split
        · next hn => exact .unit ho hp hn
        · next hn => exact .last ho hp hn
        · next hn => exact .failed ho hp hn

namespace Reading

variable {out : Except StreamError (Option υ) × Channel σ υ}

theorem highWater_eq (h : c.Reading out) : out.2.highWater = c.highWater := by
  cases h with
  | _ => rfl

theorem ne_underflow (h : c.Reading out) : out.1 ≠ .error .underflow := by
  cases h with
  | _ => nofun

theorem allowance_le (h : c.Reading out) :
    out.2.allowance ≤ c.allowance + (Stack.unitsOf out.1).length := by
  cases h with
  | closed _ => exact Nat.le_refl _
  | waiting _ _ => exact Nat.min_le_left _ _
  | ended _ _ _ => exact Nat.le_refl _
  | unit _ _ _ => exact Nat.min_le_left _ _
  | last _ _ _ => exact Nat.le_refl _
  | failed _ _ _ => exact Nat.zero_le _

theorem allowance_of_closed (h : c.Reading out) (ha : c.isClosed = true → c.allowance = 0)
    (hc : out.2.isClosed = true) : out.2.allowance = 0 := by
  cases h with
  | closed _ => exact ha hc
  | waiting ho _ => cases ho.symm.trans hc
  | ended ho _ _ => cases ho.symm.trans hc
  | unit ho _ _ => cases ho.symm.trans hc
  | last _ _ _ => cases hc
  | failed _ _ _ => rfl

end Reading

theorem highWater_close (c : Channel σ υ) : c.close.2.highWater = c.highWater := by
  rw [snd_close]
  split <;> rfl

theorem allowance_close (h : c.isClosed = true → c.allowance = 0) : c.close.2.allowance = 0 := by
  rw [snd_close]
  split
  · next hc => exact h hc
  · rfl

theorem close_ne_underflow (c : Channel σ υ) : c.close.1 ≠ .error .underflow := by
  intro he
  rw [close] at he
  split at he
  · cases he
  · split at he <;> cases he

namespace Refines

omit [Source σ υ] in
theorem fits_of_le (h : c.Refines v capacity 0) (hf : c.Fits capacity) {w : Stack σ υ}
    (hd : d.Refines w capacity 0) (hw : w.waiting.length ≤ v.waiting.length)
    (hh : d.highWater = c.highWater) (ha : d.isClosed = true → d.allowance = 0) :
    d.Fits capacity where
  capacity_eq := hd.capacity_eq
  buffered_le := by
    have hle := hf.buffered_le
    rw [h.buffered_eq] at hle
    rw [hd.buffered_eq, hh]
    exact Nat.le_trans hw hle
  highWater_le := hh ▸ hf.highWater_le
  allowance_of_closed := ha

omit [Source σ υ] in
theorem fits_pushBack (h : c.Refines v capacity 0) (hf : c.Fits capacity) (u : υ) :
    (c.pushBack u).2.Fits capacity := by
  rcases c.pushBack_cases u with ⟨e, he⟩ | ⟨ho, ha, hok⟩
  · rw [he]
    exact hf
  · have hnext := h.accept ha u
    have hroom : (c.stacked u).buffered ≤ capacity := by
      rw [hnext.buffered_eq]
      exact Nat.le_of_add_left_le hnext.room
    rw [hok]
    exact ⟨hnext.capacity_eq, Nat.le_max_right _ _, Nat.max_le.2 ⟨hf.highWater_le, hroom⟩,
      fun hc => absurd (ho.symm.trans hc) Bool.false_ne_true⟩

theorem fits_perform (h : c.Refines v capacity 0) (hf : c.Fits capacity) (call : Call υ) :
    (c.perform call).2.Fits capacity := by
  have hnext := h.perform call
  cases call with
  | read =>
    have hr := c.reading
    exact h.fits_of_le hf hnext v.reading.length_waiting_le hr.highWater_eq
      (hr.allowance_of_closed hf.allowance_of_closed)
  | pushBack u => exact h.fits_pushBack hf u
  | commit => exact hf.commit
  | close =>
    exact h.fits_of_le hf hnext v.length_waiting_close_le c.highWater_close
      fun _ => allowance_close hf.allowance_of_closed

theorem fits_session (h : c.Refines v capacity 0) (hf : c.Fits capacity)
    (calls : List (Call υ)) : (c.session calls).2.Fits capacity := by
  induction calls generalizing c v with
  | nil => exact hf
  | cons call calls ih => exact ih (h.perform call) (h.fits_perform hf call)

end Refines

theorem session_append (c : Channel σ υ) (as bs : List (Call υ)) :
    c.session (as ++ bs) = ((c.session as).1 ++ ((c.session as).2.session bs).1,
      ((c.session as).2.session bs).2) := by
  induction as generalizing c with
  | nil => rfl
  | cons a as ih => rw [List.cons_append, session_cons, ih]; rfl

def unreading (c : Channel σ υ) : List υ → List (Call υ)
  | [] => [.commit]
  | u :: us => .pushBack u ::
    match c.pushBack u with
    | (.error _, _) => []
    | (.ok (), c) => c.unreading us

def committed : Except StreamError Unit × Channel σ υ → Channel σ υ
  | (.error _, c) => c
  | (.ok (), c) => c.commit

theorem session_unreading (c : Channel σ υ) (us : List υ) :
    (c.session (c.unreading us)).2 = committed (c.unread us) := by
  induction us generalizing c with
  | nil => rfl
  | cons u us ih =>
    rw [unreading, unread, session_cons]
    cases hp : c.pushBack u with
    | mk answer d =>
      rw [perform, hp]
      cases answer with
      | error e => rfl
      | ok _ => exact ih d

theorem no_error_unreading {us : List υ} (h : c.unread us = (.ok (), d)) :
    ∀ e ∈ (c.session (c.unreading us)).1, e.error? = none := by
  induction us generalizing c with
  | nil => exact List.forall_mem_singleton.2 rfl
  | cons u us ih =>
    rw [unread] at h
    rw [unreading, session_cons]
    cases hp : c.pushBack u with
    | mk answer d' =>
      rw [hp] at h
      rw [perform, hp]
      cases answer with
      | error e => cases h
      | ok _ => exact List.forall_mem_cons.2 ⟨rfl, ih h⟩

omit [Source σ υ] in
theorem countP_unreading (c : Channel σ υ) (us : List υ) :
    (c.unreading us).countP Call.isPushBack ≤ us.length ∧
      (c.unreading us).countP Call.isRead = 0 := by
  induction us generalizing c with
  | nil => exact ⟨Nat.le_refl 0, rfl⟩
  | cons u us ih =>
    rw [unreading, List.countP_cons_of_pos rfl, List.countP_cons_of_neg Bool.false_ne_true]
    match c.pushBack u with
    | (.error _, _) => exact ⟨Nat.succ_le_succ (Nat.zero_le _), rfl⟩
    | (.ok (), d) => exact ⟨Nat.succ_le_succ (ih d).1, (ih d).2⟩

theorem perform_read_ne_underflow (c : Channel σ υ) :
    (c.perform .read).1.error? ≠ some .underflow := by
  have hne := c.reading.ne_underflow
  rw [perform]
  cases hr : c.read.1 with
  | ok unit =>
    intro he
    cases he
  | error e =>
    intro he
    rw [hr, Option.some.inj he] at hne
    exact hne rfl

theorem no_underflow_reads {calls : List (Call υ)} (h : ∀ call ∈ calls, call = .read) :
    ∀ e ∈ (c.session calls).1, e.error? ≠ some .underflow := by
  induction calls generalizing c with
  | nil => exact List.forall_mem_nil _
  | cons call calls ih =>
    obtain ⟨rfl, hcalls⟩ := List.forall_mem_cons.1 h
    rw [session_cons]
    exact List.forall_mem_cons.2 ⟨c.perform_read_ne_underflow, ih hcalls⟩

end Channel

end Munch
