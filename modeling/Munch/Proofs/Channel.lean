import Munch.Proofs.Ring
import Munch.Proofs.Stack

namespace Munch.Channel

variable {σ υ : Type}

/-- The channel holds the stack `v`, and the last `n` units read can be unread as far as there is
room for them. -/
structure Refines (c : Channel σ υ) (v : Stack σ υ) (capacity n : Nat) : Prop where
  holds : c.buffer.Holds v.waiting
  source_eq : c.source = v.source
  stage_eq : c.stage = v.stage
  pulled_eq : c.pulled = v.pulled
  capacity_eq : c.capacity = capacity
  room : c.allowance + v.waiting.length ≤ capacity
  granted : min n (capacity - v.waiting.length) ≤ c.allowance

inductive Reads [Source σ υ] : Channel σ υ → List υ → Channel σ υ → Prop
  | nil {c : Channel σ υ} : Reads c [] c
  | cons {c c' d : Channel σ υ} {u : υ} {us : List υ} :
      c.read = (.ok (some u), c') → Reads c' us d → Reads c (u :: us) d

section

variable {τ : Type}

def mapSource (c : Channel σ υ) (f : σ → τ) : Channel τ υ :=
  ⟨f c.source, c.buffer, c.allowance, c.stage, c.pulled, c.highWater⟩

theorem pushBack_mapSource (c : Channel σ υ) (f : σ → τ) (u : υ) :
    (c.mapSource f).pushBack u = ((c.pushBack u).1, (c.pushBack u).2.mapSource f) := by
  have hclosed : (c.mapSource f).isClosed = c.isClosed := rfl
  have hallowance : (c.mapSource f).allowance = c.allowance := rfl
  rw [pushBack, pushBack, hclosed, hallowance]
  cases c.isClosed with
  | true => rfl
  | false => by_cases ha : c.allowance = 0 <;> simp only [ha] <;> rfl

theorem unread_mapSource (c : Channel σ υ) (f : σ → τ) (us : List υ) :
    (c.mapSource f).unread us = ((c.unread us).1, (c.unread us).2.mapSource f) := by
  induction us generalizing c with
  | nil => rfl
  | cons u us ih =>
    rw [Channel.unread, Channel.unread, pushBack_mapSource]
    cases c.pushBack u with
    | mk answer d =>
      cases answer with
      | error e => rfl
      | ok _ => exact ih d

end

theorem snd_close [Source σ υ] (c : Channel σ υ) :
    c.close.2 = if c.isClosed then c else c.shut.2 := by
  rw [close]
  split
  · rfl
  · match c.shut with
    | (some e, d) => rfl
    | (none, d) => rfl

def stacked (c : Channel σ υ) (u : υ) : Channel σ υ :=
  { c with
    buffer := c.buffer.pushFront u
    allowance := c.allowance - 1
    highWater := max c.highWater (c.buffer.length + 1) }

section

variable {c : Channel σ υ} {u : υ}

theorem pushBack_of_closed (hc : c.isClosed = true) : c.pushBack u = (.error .closed, c) := by
  rw [pushBack, if_pos hc]

theorem pushBack_of_zero (ho : c.isClosed = false) (ha : c.allowance = 0) :
    c.pushBack u = (.error .underflow, c) := by
  rw [pushBack, ho, if_neg Bool.false_ne_true, if_pos ha]

theorem pushBack_of_ne_zero (ho : c.isClosed = false) (ha : c.allowance ≠ 0) :
    c.pushBack u = (.ok (), c.stacked u) := by
  rw [pushBack, ho, if_neg Bool.false_ne_true, if_neg ha]
  rfl

theorem pushBack_cases (c : Channel σ υ) (u : υ) :
    (∃ e, c.pushBack u = (.error e, c)) ∨
      c.isClosed = false ∧ c.allowance ≠ 0 ∧ c.pushBack u = (.ok (), c.stacked u) := by
  cases ho : c.isClosed with
  | true => exact .inl ⟨_, pushBack_of_closed ho⟩
  | false =>
    by_cases ha : c.allowance = 0
    · exact .inl ⟨_, pushBack_of_zero ho ha⟩
    · exact .inr ⟨rfl, ha, pushBack_of_ne_zero ho ha⟩

end

namespace Refines

variable {c : Channel σ υ} {v : Stack σ υ} {capacity n : Nat}

theorem create (source : σ) (capacity : Nat) :
    (Channel.create source capacity : Channel σ υ).Refines (.ofSource source) capacity 0 where
  holds := .empty capacity
  source_eq := rfl
  stage_eq := rfl
  pulled_eq := rfl
  capacity_eq := Ring.capacity_empty capacity
  room := Nat.zero_le _
  granted := Nat.min_le_left _ _

theorem buffered_eq (h : c.Refines v capacity n) : c.buffered = v.waiting.length :=
  h.holds.length_eq

theorem mono (h : c.Refines v capacity n) {m : Nat} (hm : m ≤ n) : c.Refines v capacity m :=
  { h with granted := by have := h.granted; omega }

theorem commit (h : c.Refines v capacity n) : c.commit.Refines v capacity 0 :=
  { h with
    room := by have := h.room; simp only [Channel.commit]; omega
    granted := Nat.min_le_left _ _ }

theorem isClosed_iff (h : c.Refines v capacity n) :
    c.isClosed = true ↔ ∃ f, v.stage = .closed f := by
  rw [← h.stage_eq, isClosed]
  cases c.stage <;> simp

theorem isOpen (h : c.Refines v capacity n) (hc : c.isClosed = false) : v.IsOpen := by
  intro f hf
  rw [h.isClosed_iff.2 ⟨f, hf⟩] at hc
  cases hc

theorem isClosed_eq_false (h : c.Refines v capacity n) (ho : v.IsOpen) : c.isClosed = false := by
  rw [Bool.eq_false_iff]
  intro hc
  obtain ⟨f, hf⟩ := h.isClosed_iff.1 hc
  exact ho f hf

theorem accept (h : c.Refines v capacity n) (ha : c.allowance ≠ 0) (u : υ) :
    (c.stacked u).Refines (v.unread [u]) capacity (n - 1) := by
  have hg := h.granted
  have hr := h.room
  have hroom : v.waiting.length < c.buffer.capacity := by
    have hcapacity : c.buffer.capacity = capacity := h.capacity_eq
    omega
  exact {
    holds := h.holds.pushFront u hroom
    source_eq := h.source_eq
    stage_eq := h.stage_eq
    pulled_eq := h.pulled_eq
    capacity_eq := by
      simp only [stacked, Channel.capacity, Ring.capacity_pushFront]
      exact h.capacity_eq
    room := by
      simp only [stacked, Stack.length_waiting_unread, List.length_singleton]
      omega
    granted := by
      simp only [stacked, Stack.length_waiting_unread, List.length_singleton]
      omega }

theorem pushBack (h : c.Refines v capacity (n + 1)) (ho : v.IsOpen)
    (hroom : v.waiting.length < capacity) (u : υ) :
    ∃ d, c.pushBack u = (.ok (), d) ∧ d.Refines (v.unread [u]) capacity n := by
  have ha : c.allowance ≠ 0 := by
    have hg := h.granted
    omega
  exact ⟨_, pushBack_of_ne_zero (h.isClosed_eq_false ho) ha, h.accept ha u⟩

theorem unread {us : List υ} (h : c.Refines v capacity n) (ho : v.IsOpen) (hn : us.length ≤ n)
    (hroom : us.length + v.waiting.length ≤ capacity) :
    ∃ d, c.unread us = (.ok (), d) ∧ d.Refines (v.unread us.reverse) capacity (n - us.length) := by
  induction us generalizing c v n with
  | nil => exact ⟨c, rfl, h⟩
  | cons u us ih =>
    simp only [List.length_cons] at hn hroom
    obtain ⟨n, rfl⟩ := Nat.exists_eq_add_of_le' (Nat.zero_lt_of_lt hn)
    obtain ⟨d, hp, hd⟩ := h.pushBack ho (by omega) u
    obtain ⟨d', hu, hd'⟩ := ih hd (ho.unread [u]) (by omega)
      (by rw [Stack.length_waiting_unread, List.length_singleton]; omega)
    refine ⟨d', by rw [Channel.unread, hp]; exact hu, ?_⟩
    rw [List.length_cons, Nat.add_sub_add_right, List.reverse_cons, ← Stack.unread_unread]
    exact hd'

theorem grant (h : c.Refines v capacity (min n (capacity - (v.waiting.length + 1)))) :
    c.grant.Refines v capacity (n + 1) := by
  have hg := h.granted
  have hr := h.room
  exact { h with
    room := by simp only [Channel.grant, h.capacity_eq, h.buffered_eq]; omega
    granted := by simp only [Channel.grant, h.capacity_eq, h.buffered_eq]; omega }

theorem popFront (h : c.Refines v capacity n) {u : υ} {us : List υ} (hw : v.waiting = u :: us) :
    Refines { c with buffer := c.buffer.popFront.2 } { v with waiting := us } capacity
      (min n (capacity - (us.length + 1))) := by
  have hholds : c.buffer.Holds (u :: us) := hw ▸ h.holds
  have hg := h.granted
  have hr := h.room
  rw [hw, List.length_cons] at hg hr
  exact { h with
    holds := hholds.popFront_snd
    capacity_eq := (Ring.capacity_popFront c.buffer).trans h.capacity_eq
    room := Nat.le_of_succ_le hr
    granted := Nat.le_trans (Nat.min_le_left _ _) hg }

variable [Source σ υ]

def allowed (n : Nat) : Except StreamError (Option υ) → Nat
  | .ok (some _) => n + 1
  | .ok none => n
  | .error _ => 0

theorem shut (h : c.Refines v capacity n) :
    c.shut.2.Refines
      ⟨[], (Source.close v.source).2, .closed (Source.close v.source).1, v.pulled⟩ capacity 0 where
  holds := h.holds.clear
  source_eq := by simp only [Channel.shut, h.source_eq]
  stage_eq := by simp only [Channel.shut, h.source_eq]
  pulled_eq := h.pulled_eq
  capacity_eq := by
    simp only [Channel.shut, Channel.capacity, Ring.capacity_clear]
    exact h.capacity_eq
  room := Nat.zero_le _
  granted := Nat.min_le_left _ _

theorem close (h : c.Refines v capacity n) : c.close.2.Refines v.close capacity 0 := by
  rw [snd_close]
  split
  · next hc =>
    obtain ⟨f, hf⟩ := h.isClosed_iff.1 hc
    rw [Stack.close_of_closed hf]
    exact h.mono (Nat.zero_le n)
  · next hc =>
    rw [(h.isOpen (by simpa using hc)).close]
    exact h.shut

theorem read_cons (h : c.Refines v capacity n) (ho : v.IsOpen) {u : υ} {us : List υ}
    (hw : v.waiting = u :: us) :
    c.read = (.ok (some u), Channel.grant { c with buffer := c.buffer.popFront.2 }) := by
  have hp : c.buffer.popFront = (some u, c.buffer.popFront.2) := by
    have hholds : c.buffer.Holds (u :: us) := hw ▸ h.holds
    rw [← hholds.popFront_fst]
  rw [Channel.read, h.isClosed_eq_false ho, if_neg Bool.false_ne_true, hp]

theorem read_nil (h : c.Refines v capacity n) (ho : v.IsOpen) (hw : v.waiting = []) :
    c.read = if v.stage = .ended then (.ok none, c) else c.pull := by
  have hholds : c.buffer.Holds [] := hw ▸ h.holds
  rw [Channel.read, h.isClosed_eq_false ho, if_neg Bool.false_ne_true, hholds.popFront_nil,
    ← h.stage_eq]

theorem read_pull (h : c.Refines v capacity n) (hs : v.stage = .open) (hw : v.waiting = []) :
    c.read = c.pull := by
  have hne : v.stage ≠ .ended := by
    rw [hs]
    intro he
    cases he
  rw [h.read_nil (Stack.isOpen_of_open hs) hw, if_neg hne]

theorem of_reading (h : c.Refines v capacity n)
    {out : Except StreamError (Option υ) × Stack σ υ} (hr : v.Reading out) :
    ∃ d, c.read = (out.1, d) ∧ d.Refines out.2 capacity (allowed n out.1) := by
  cases hr with
  | closed hs =>
    rw [Channel.read, if_pos (h.isClosed_iff.2 ⟨_, hs⟩)]
    exact ⟨c, rfl, h.mono (Nat.zero_le n)⟩
  | waiting ho hw =>
    rw [h.read_cons ho hw]
    exact ⟨_, rfl, (h.popFront hw).grant⟩
  | ended hs hw =>
    rw [h.read_nil (Stack.isOpen_of_ended hs) hw, if_pos hs]
    exact ⟨c, rfl, h⟩
  | @unit u s hs hw hn =>
    rw [h.read_pull hs hw, Channel.pull, h.source_eq, hn]
    have hd : Refines { c with source := s, pulled := c.pulled + 1 }
        { v with source := s, pulled := v.pulled + 1 } capacity n :=
      { h with source_eq := rfl, pulled_eq := congrArg (· + 1) h.pulled_eq }
    exact ⟨_, rfl, (hd.mono (Nat.min_le_left _ _)).grant⟩
  | last hs hw hn =>
    rw [h.read_pull hs hw, Channel.pull, h.source_eq, hn]
    exact ⟨_, rfl, { h with source_eq := rfl, stage_eq := rfl }⟩
  | @failed e s hs hw hn =>
    rw [h.read_pull hs hw, Channel.pull, h.source_eq, hn]
    have hd : Refines { c with source := s } { v with source := s } capacity n :=
      { h with source_eq := rfl }
    refine ⟨_, rfl, ?_⟩
    rw [hw]
    exact hd.shut

theorem read (h : c.Refines v capacity n) :
    ∃ d, c.read = (v.read.1, d) ∧ d.Refines v.read.2 capacity (allowed n v.read.1) :=
  h.of_reading v.reading

theorem of_read (h : c.Refines v capacity n) {answer : Except StreamError (Option υ)}
    {d : Channel σ υ} (hr : c.read = (answer, d)) :
    v.read = (answer, v.read.2) ∧ d.Refines v.read.2 capacity (allowed n answer) := by
  obtain ⟨d', heq, hd⟩ := h.read
  rw [hr] at heq
  obtain ⟨rfl, rfl⟩ := Prod.mk.inj heq
  exact ⟨rfl, hd⟩

end Refines

end Munch.Channel
