import Munch.Proofs.Checked
import Munch.Proofs.Room

namespace Munch.Channel

variable {σ υ : Type}

namespace Event

def isCommit : Event υ → Bool
  | .commit => true
  | _ => false

def isUnit : Event υ → Bool
  | .read (.ok (some _)) => true
  | _ => false

def isAccepted : Event υ → Bool
  | .pushBack _ (.ok ()) => true
  | _ => false

end Event

def recent (events : List (Event υ)) : List (Event υ) :=
  events.reverse.takeWhile (!·.isCommit)

def brought (events : List (Event υ)) : Nat := (recent events).countP Event.isUnit

def takenBack (events : List (Event υ)) : Nat := (recent events).countP Event.isAccepted

theorem recent_append (events : List (Event υ)) (e : Event υ) :
    recent (events ++ [e]) = if e.isCommit then [] else e :: recent events := by
  rw [recent, List.reverse_append, List.reverse_singleton, List.singleton_append,
    List.takeWhile_cons]
  cases e.isCommit <;> rfl

theorem brought_append (events : List (Event υ)) (e : Event υ) :
    brought (events ++ [e]) =
      if e.isCommit then 0 else brought events + if e.isUnit then 1 else 0 := by
  rw [brought, recent_append]
  split
  · rfl
  · exact List.countP_cons

theorem takenBack_append (events : List (Event υ)) (e : Event υ) :
    takenBack (events ++ [e]) =
      if e.isCommit then 0 else takenBack events + if e.isAccepted then 1 else 0 := by
  rw [takenBack, recent_append]
  split
  · rfl
  · exact List.countP_cons

theorem brought_read (events : List (Event υ)) (answer : Except StreamError (Option υ)) :
    brought (events ++ [.read answer]) = brought events + (Stack.unitsOf answer).length := by
  rw [brought_append]
  match answer with
  | .ok (some u) => rfl
  | .ok none => rfl
  | .error e => rfl

theorem takenBack_read (events : List (Event υ)) (answer : Except StreamError (Option υ)) :
    takenBack (events ++ [.read answer]) = takenBack events := takenBack_append _ _

/-- The allowance of a channel that has brought `m` units since the last commit and has taken `n`
of them back. -/
structure Allows (c : Channel σ υ) (capacity m n : Nat) : Prop where
  le : n ≤ m
  allowance_eq : c.isClosed = false → c.allowance = min (capacity - c.buffered) (m - n)

namespace Allows

variable {c : Channel σ υ} {capacity m n : Nat} {events : List (Event υ)}

theorem create (s : σ) (capacity : Nat) :
    (Channel.create s capacity : Channel σ υ).Allows capacity 0 0 where
  le := Nat.le_refl 0
  allowance_eq _ := (Nat.min_zero _).symm

theorem commit (c : Channel σ υ) (capacity : Nat) : c.commit.Allows capacity 0 0 where
  le := Nat.le_refl 0
  allowance_eq _ := (Nat.min_zero _).symm

theorem of_closed (h : c.Allows capacity m n) {d : Channel σ υ} (hd : d.isClosed = true) :
    d.Allows capacity m n where
  le := h.le
  allowance_eq ho := by rw [hd] at ho; cases ho

theorem stacked (h : c.Allows capacity m n) (ho : c.isClosed = false) (ha : c.allowance ≠ 0)
    (u : υ) : (c.stacked u).Allows capacity m (n + 1) := by
  have heq := h.allowance_eq ho
  refine ⟨by omega, fun _ => ?_⟩
  simp only [Channel.stacked, buffered, Ring.length_pushFront] at heq ⊢
  omega

theorem fst_pushBack (h : c.Allows capacity m n) (ho : c.isClosed = false) (u : υ) :
    (c.pushBack u).1 =
      if c.buffered < capacity ∧ n < m then .ok () else .error .underflow := by
  have heq := h.allowance_eq ho
  by_cases ha : c.allowance = 0
  · rw [pushBack_of_zero ho ha, if_neg (by omega)]
  · rw [pushBack_of_ne_zero ho ha, if_pos (by omega)]

theorem grant (h : c.Allows capacity m n) (ho : c.isClosed = false) (hle : c.buffered ≤ capacity)
    {d : Channel σ υ} (ha : d.allowance = c.allowance) (hc : d.capacity = capacity)
    (hb : d.buffered ≤ c.buffered) (hb' : c.buffered ≤ d.buffered + 1) :
    d.grant.Allows capacity (m + 1) n := by
  have hnm := h.le
  have heq := h.allowance_eq ho
  have hgrant : d.grant.allowance = min (c.allowance + 1) (capacity - d.buffered) := by
    rw [Channel.grant, ha, hc]
  have hbuffered : d.grant.buffered = d.buffered := rfl
  refine ⟨Nat.le_add_right_of_le hnm, fun _ => ?_⟩
  rw [hgrant, hbuffered]
  -- whichever margin was the lesser: what was cut off for want of room is cut off again
  omega

variable [Source σ υ]

theorem close (h : c.Allows capacity m n) : c.close.2.Allows capacity m n := by
  rw [snd_close]
  split
  · exact h
  · exact h.of_closed rfl

theorem reading (h : c.Allows capacity m n) (href : c.Refines v capacity 0)
    {out : Except StreamError (Option υ) × Channel σ υ} (hr : c.Reading out) :
    out.2.Allows capacity (m + (Stack.unitsOf out.1).length) n := by
  have hc := href.capacity_eq
  have hle := href.buffered_le
  rw [hc] at hle
  cases hr with
  | closed hclosed => exact h
  | @waiting u buffer ho hp =>
    have hlength := c.buffer.length_popFront
    have hcapacity := c.buffer.capacity_popFront
    rw [hp] at hlength hcapacity
    have hbuffered : buffer.length = c.buffered - 1 := hlength
    exact h.grant ho hle rfl (hcapacity.trans hc) (hbuffered.trans_le (Nat.sub_le _ _))
      (Nat.le_add_of_sub_le hbuffered.ge)
  | ended ho hp hs =>
    cases href.holds.popFront_of_none hp
    exact h
  | unit ho hp hn =>
    cases href.holds.popFront_of_none hp
    exact h.grant ho hle rfl hc (Nat.le_refl _) (Nat.le_add_right _ _)
  | last ho hp hn =>
    cases href.holds.popFront_of_none hp
    exact ⟨h.le, fun _ => h.allowance_eq ho⟩
  | failed ho hp hn => exact h.of_closed rfl

theorem perform (h : c.Allows capacity (brought events) (takenBack events))
    (href : c.Refines v capacity 0) (call : Call υ) :
    (c.perform call).2.Allows capacity (brought (events ++ [(c.perform call).1]))
      (takenBack (events ++ [(c.perform call).1])) := by
  cases call with
  | read =>
    rw [Channel.perform, brought_read, takenBack_read]
    exact h.reading href c.reading
  | pushBack u =>
    rw [Channel.perform, brought_append, takenBack_append]
    rcases c.pushBack_cases u with ⟨e, he⟩ | ⟨ho, ha, hok⟩
    · rw [he]
      exact h
    · rw [hok]
      exact h.stacked ho ha u
  | commit =>
    rw [Channel.perform, brought_append, takenBack_append]
    exact .commit c capacity
  | close =>
    rw [Channel.perform, brought_append, takenBack_append]
    exact h.close

end Allows

variable [Source σ υ]

theorem allows_session (s : σ) (capacity : Nat) (calls : List (Call υ)) :
    ((create s capacity).session calls).2.Allows capacity
      (brought ((create s capacity).session calls).1)
      (takenBack ((create s capacity).session calls).1) := by
  induction calls using List.reverseRecOn with
  | nil => exact .create s capacity
  | append_singleton calls call ih =>
    rw [session_append]
    exact ih.perform ((Refines.create s capacity).session calls) call

theorem Reading.allowance_of_none {c : Channel σ υ}
    {out : Except StreamError (Option υ) × Channel σ υ} (h : c.Reading out)
    (hn : out.1 = .ok none) : out.2.allowance = c.allowance := by
  cases h with
  | closed _ => rfl
  | waiting _ _ => cases hn
  | ended _ _ _ => rfl
  | unit _ _ _ => cases hn
  | last _ _ _ => rfl
  | failed _ _ _ => cases hn

/-- After any session an open channel takes a unit back if and only if it has room for it and has
brought more units since the last commit than it has taken back. Its allowance is the lesser of the
two margins. Where it takes no unit back it says why and stays as it was. The end of the stream
adds nothing. -/
theorem pushBack_exact (s : σ) (capacity : Nat) (calls : List (Call υ)) :
    let events := ((create s capacity).session calls).1
    let c := ((create s capacity).session calls).2
    takenBack events ≤ brought events ∧
      (c.isClosed = false →
        c.allowance = min (capacity - c.buffered) (brought events - takenBack events) ∧
        ∀ u, (c.pushBack u).1 =
          if c.buffered < capacity ∧ takenBack events < brought events then .ok ()
          else .error .underflow) ∧
      (c.isClosed = true → ∀ u, (c.pushBack u).1 = .error .closed) ∧
      (∀ u e, (c.pushBack u).1 = .error e → (c.pushBack u).2 = c) ∧
      (c.read.1 = .ok none → c.read.2.allowance = c.allowance) := by
  have h := allows_session s capacity calls
  refine ⟨h.le, fun ho => ⟨h.allowance_eq ho, h.fst_pushBack ho⟩, ?_, ?_, ?_⟩
  · intro hc u
    rw [pushBack_of_closed hc]
  · intro u e he
    rcases pushBack_cases _ u with ⟨e', heq⟩ | ⟨-, -, heq⟩
    · rw [heq]
    · rw [heq] at he
      cases he
  · exact (reading _).allowance_of_none

def crowded : List (Call Nat) :=
  [.read, .commit, .read, .read, .read, .pushBack 4, .pushBack 3, .pushBack 2]

/-- The third was brought, but there is no room for it. -/
theorem pushBack_exact_crowded :
    let events := ((create [1, 2, 3, 4] 2).session crowded).1
    let c := ((create [1, 2, 3, 4] 2).session crowded).2
    c.isClosed = false ∧ c.buffered = 2 ∧ brought events = 3 ∧ takenBack events = 2 ∧
      c.allowance = min (2 - 2) (3 - 2) ∧ c.pushBack 2 = (.error .underflow, c) := by
  have hopen : ((create [1, 2, 3, 4] 2).session crowded).2.isClosed = false := by cbv
  have hbuffered : ((create [1, 2, 3, 4] 2).session crowded).2.buffered = 2 := by cbv
  have hbrought : brought ((create [1, 2, 3, 4] 2).session crowded).1 = 3 := by cbv
  have htaken : takenBack ((create [1, 2, 3, 4] 2).session crowded).1 = 2 := by cbv
  obtain ⟨-, hexact, -, hrefused, -⟩ := pushBack_exact [1, 2, 3, 4] 2 crowded
  obtain ⟨hallowance, hanswer⟩ := hexact hopen
  have hunderflow := hanswer 2
  rw [hbuffered, if_neg (by simp)] at hunderflow
  rw [hbuffered, hbrought, htaken] at hallowance
  exact ⟨hopen, hbuffered, hbrought, htaken, hallowance,
    Prod.ext hunderflow (hrefused 2 _ hunderflow)⟩

end Munch.Channel
