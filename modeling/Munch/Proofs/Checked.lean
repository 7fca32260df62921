import Munch.Proofs.Session

/-! The operations of a ring and of a channel once more, with a check before each index, each
subtraction and each remainder. `none` is an operation that a check has stopped. A channel that
holds a stack passes all of them. -/

namespace Munch

variable {σ υ α : Type}

def sub? (a b : Nat) : Option Nat := if b ≤ a then some (a - b) else none

def mod? (a b : Nat) : Option Nat := if b = 0 then none else some (a % b)

def put? (as : Array α) (i : Nat) (a : α) : Option (Array α) :=
  if i < as.size then some (as.setIfInBounds i a) else none

theorem sub?_of_le {a b : Nat} (h : b ≤ a) : sub? a b = some (a - b) := if_pos h

theorem mod?_of_pos {a b : Nat} (h : 0 < b) : mod? a b = some (a % b) := if_neg (Nat.ne_of_gt h)

theorem put?_of_lt {as : Array α} {i : Nat} (h : i < as.size) (a : α) :
    put? as i a = some (as.setIfInBounds i a) := if_pos h

namespace Ring

def pushFront? (r : Ring α) (a : α) : Option (Ring α) := do
  let back ← sub? (r.head + r.capacity) 1
  let head ← mod? back r.capacity
  let slots ← put? r.slots head (some a)
  return ⟨slots, head, r.length + 1⟩

def popFront? (r : Ring α) : Option (Option α × Ring α) :=
  if r.length = 0 then some (none, r)
  else do
    let a ← r.slots[r.head]?
    let slots ← put? r.slots r.head none
    let head ← mod? (r.head + 1) r.capacity
    let length ← sub? r.length 1
    return (a, ⟨slots, head, length⟩)

theorem length_lt_of_popFront? {r r' : Ring α} {a : α} (h : r.popFront? = some (some a, r')) :
    r'.length < r.length := by
  rw [popFront?] at h
  split at h
  · cases h
  · next hlen =>
    simp only [bind, Option.bind_eq_some_iff] at h
    obtain ⟨b, -, slots, -, head, -, length, hsub, hr⟩ := h
    cases hr
    rw [sub?_of_le (Nat.pos_of_ne_zero hlen)] at hsub
    cases hsub
    exact Nat.sub_one_lt hlen

def clear? (r : Ring α) : Option (Ring α) :=
  match _h : r.popFront? with
  | none => none
  | some (none, r) => some r
  | some (some _, r) => r.clear?
termination_by r.length
decreasing_by exact length_lt_of_popFront? _h

variable {r : Ring α} {as : List α}

theorem pushFront?_eq (h : 0 < r.capacity) (a : α) : r.pushFront? a = some (r.pushFront a) := by
  have hhead : (r.head + r.capacity - 1) % r.capacity < r.slots.size := Nat.mod_lt _ h
  simp only [pushFront?, sub?_of_le (Nat.le_add_left_of_le h), mod?_of_pos h,
    put?_of_lt hhead, Option.bind_eq_bind, Option.bind_some]
  rfl

theorem Holds.popFront?_eq (h : r.Holds as) : r.popFront? = some r.popFront := by
  cases as with
  | nil =>
    have hlen : r.length = 0 := h.length_eq
    rw [popFront?, popFront, if_pos hlen, if_pos hlen]
  | cons a as =>
    have hlen : r.length ≠ 0 := by
      rw [h.length_eq]
      exact Nat.succ_ne_zero _
    have hhead : r.head < r.slots.size := h.head_lt_of_cons
    simp only [popFront?, popFront, if_neg hlen, Array.getElem?_eq_getElem hhead,
      put?_of_lt hhead, mod?_of_pos (Nat.zero_lt_of_lt h.head_lt_of_cons),
      sub?_of_le (Nat.pos_of_ne_zero hlen), Option.bind_eq_bind, Option.bind_some]
    rfl

theorem Holds.clear?_eq (h : r.Holds as) : r.clear? = some r.clear := by
  induction as generalizing r with
  | nil =>
    rw [Ring.clear?, Ring.clear, h.popFront_nil]
    split
    · next hn => rw [h.popFront?_eq] at hn; cases hn
    · next hn => rw [h.popFront?_eq, h.popFront_nil] at hn; cases hn; rfl
    · next hn => rw [h.popFront?_eq, h.popFront_nil] at hn; cases hn
  | cons a as ih =>
    have hsome := h.popFront?_eq
    rw [← Prod.eta r.popFront, h.popFront_fst] at hsome
    rw [Ring.clear?, Ring.clear]
    split
    · next hn => rw [hsome] at hn; cases hn
    · next hn => rw [hsome] at hn; cases hn
    · next hn =>
      rw [hsome] at hn
      cases hn
      rw [ih h.popFront_snd]
      split
      · rfl
      · next hn => rw [h.popFront_fst] at hn; cases hn

end Ring

namespace Channel

def grant? (c : Channel σ υ) : Option (Channel σ υ) := do
  let room ← sub? c.capacity c.buffered
  return { c with allowance := min (c.allowance + 1) room }

def pushBack? (c : Channel σ υ) (u : υ) : Option (Except StreamError Unit × Channel σ υ) :=
  if c.isClosed then some (.error .closed, c)
  else if c.allowance = 0 then some (.error .underflow, c)
  else do
    let allowance ← sub? c.allowance 1
    let buffer ← c.buffer.pushFront? u
    return (.ok (), { c with
      buffer
      allowance
      highWater := max c.highWater buffer.length })

def unread? (c : Channel σ υ) : List υ → Option (Except StreamError Unit × Channel σ υ)
  | [] => some (.ok (), c)
  | u :: us =>
    match c.pushBack? u with
    | none => none
    | some (.error e, c) => some (.error e, c)
    | some (.ok (), c) => c.unread? us

variable [Source σ υ]

def shut? (c : Channel σ υ) : Option (Option IoError × Channel σ υ) := do
  let buffer ← c.buffer.clear?
  let (fault, source) := Source.close c.source
  return (fault, { c with source, buffer, allowance := 0, stage := .closed fault })

def close? (c : Channel σ υ) : Option (Except StreamError Unit × Channel σ υ) :=
  if c.isClosed then some (.ok (), c)
  else
    match c.shut? with
    | none => none
    | some (some e, c) => some (.error (.failed e), c)
    | some (none, c) => some (.ok (), c)

def pull? (c : Channel σ υ) : Option (Except StreamError (Option υ) × Channel σ υ) :=
  match Source.next c.source with
  | (.unit u, source) => do
    let c ← { c with source, pulled := c.pulled + 1 }.grant?
    return (.ok (some u), c)
  | (.ended, source) => some (.ok none, { c with source, stage := .ended })
  | (.failed e, source) => do
    let (_, c) ← { c with source }.shut?
    return (.error (.failed e), c)

def read? (c : Channel σ υ) : Option (Except StreamError (Option υ) × Channel σ υ) :=
  if c.isClosed then some (.error .closed, c)
  else
    match c.buffer.popFront? with
    | none => none
    | some (some u, buffer) => do
      let c ← { c with buffer }.grant?
      return (.ok (some u), c)
    | some (none, buffer) =>
      let c := { c with buffer }
      if c.stage = .ended then some (.ok none, c) else c.pull?

variable {c : Channel σ υ} {v : Stack σ υ} {capacity n : Nat}

omit [Source σ υ] in
theorem grant?_eq (h : c.buffered ≤ c.capacity) : c.grant? = some c.grant := by
  rw [grant?, sub?_of_le h]
  rfl

namespace Refines

omit [Source σ υ] in
theorem buffered_le (h : c.Refines v capacity n) : c.buffered ≤ c.capacity := by
  rw [h.buffered_eq, h.capacity_eq]
  exact Nat.le_of_add_left_le h.room

omit [Source σ υ] in
theorem pushBack?_eq (h : c.Refines v capacity n) (u : υ) :
    c.pushBack? u = some (c.pushBack u) := by
  rw [Channel.pushBack?, Channel.pushBack]
  split
  · rfl
  · split
    · rfl
    · next ha =>
      have hpos : 0 < c.buffer.capacity := by
        have hcapacity : c.buffer.capacity = capacity := h.capacity_eq
        have hr := h.room
        omega
      rw [sub?_of_le (Nat.pos_of_ne_zero ha), Ring.pushFront?_eq hpos]
      rfl

theorem unread?_eq (h : c.Refines v capacity 0) (us : List υ) :
    c.unread? us = some (c.unread us) := by
  induction us generalizing c v with
  | nil => rfl
  | cons u us ih =>
    have hnext := h.follow_pushBack u
    rw [Channel.unread?, Channel.unread, h.pushBack?_eq]
    cases hp : c.pushBack u with
    | mk answer d =>
      rw [hp] at hnext
      cases answer with
      | error e => rfl
      | ok _ => exact ih hnext

theorem shut?_eq (h : c.Refines v capacity n) : c.shut? = some c.shut := by
  rw [Channel.shut?, h.holds.clear?_eq]
  rfl

theorem close?_eq (h : c.Refines v capacity n) : c.close? = some c.close := by
  rw [Channel.close?, Channel.close, h.shut?_eq]
  split
  · rfl
  · cases c.shut with
    | mk fault d => cases fault <;> rfl

theorem pull?_eq (h : c.Refines v capacity n) : c.pull? = some c.pull := by
  cases hn : Source.next c.source with
  | mk reply s =>
    rw [Channel.pull?, Channel.pull, hn]
    cases reply with
    | unit u =>
      have hle : Channel.buffered { c with source := s, pulled := c.pulled + 1 } ≤
          Channel.capacity { c with source := s, pulled := c.pulled + 1 } := h.buffered_le
      dsimp only
      rw [grant?_eq hle]
      rfl
    | ended => rfl
    | failed e =>
      have hs : Refines { c with source := s } { v with source := s } capacity n :=
        { h with source_eq := rfl }
      dsimp only
      rw [hs.shut?_eq]
      rfl

theorem read?_eq (h : c.Refines v capacity n) : c.read? = some c.read := by
  rw [Channel.read?, Channel.read, h.holds.popFront?_eq]
  split
  · rfl
  · cases hp : c.buffer.popFront with
    | mk a buffer =>
      cases a with
      | none =>
        cases h.holds.popFront_of_none hp
        change (if c.stage = .ended then some (.ok none, c) else c.pull?) =
          some (if c.stage = .ended then (.ok none, c) else c.pull)
        rw [h.pull?_eq]
        split <;> rfl
      | some u =>
        have hle : Channel.buffered { c with buffer } ≤ Channel.capacity { c with buffer } := by
          have hbuffer : buffer = c.buffer.popFront.2 := by rw [hp]
          simp only [Channel.buffered, Channel.capacity, hbuffer, Ring.length_popFront,
            Ring.capacity_popFront]
          exact Nat.le_trans (Nat.sub_le _ _) h.buffered_le
        dsimp only
        rw [grant?_eq hle]
        rfl

end Refines

end Channel

end Munch
