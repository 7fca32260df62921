import Munch.Channel

/-! A stack over a source is a channel without its bound: unread units wait on a list of any length
and come before the source. `scan` looks some reads ahead, and `peek` unreads what was seen. -/

namespace Munch

structure Stack (σ υ : Type) where
  waiting : List υ
  source : σ
  stage : Stage
  pulled : Nat

structure Scan (σ υ : Type) where
  units : List υ
  fault : Option StreamError
  rest : Stack σ υ

namespace Scan

variable {σ υ : Type}

def answer {α : Type} (t : Scan σ υ) (f : List υ → α) : Except StreamError α :=
  match t.fault with
  | some e => .error e
  | none => .ok (f t.units)

def granted (t : Scan σ υ) (n : Nat) : Nat :=
  match t.fault with
  | some _ => 0
  | none => n + t.units.length

theorem answer_cons {α : Type} (u : υ) (t : Scan σ υ) (f : List υ → α) :
    Scan.answer { t with units := u :: t.units } f = t.answer fun us => f (u :: us) := by
  cases h : t.fault with
  | none => simp only [answer, h]
  | some e => simp only [answer, h]

theorem granted_cons (u : υ) (t : Scan σ υ) (n : Nat) :
    Scan.granted { t with units := u :: t.units } n = t.granted (n + 1) := by
  cases h : t.fault with
  | none => simp only [granted, h, List.length_cons]; omega
  | some e => simp only [granted, h]

end Scan

namespace Stack

variable {σ υ : Type}

def ofSource (source : σ) : Stack σ υ := ⟨[], source, .open, 0⟩

def IsOpen (v : Stack σ υ) : Prop := ∀ f, v.stage ≠ .closed f

def unread (us : List υ) (v : Stack σ υ) : Stack σ υ := { v with waiting := us ++ v.waiting }

def drop (n : Nat) (v : Stack σ υ) : Stack σ υ := { v with waiting := v.waiting.drop n }

@[simp] theorem unread_nil (v : Stack σ υ) : v.unread [] = v := rfl

theorem unread_unread (us ws : List υ) (v : Stack σ υ) :
    (v.unread ws).unread us = v.unread (us ++ ws) := by
  simp [unread]

@[simp] theorem drop_zero (v : Stack σ υ) : v.drop 0 = v := rfl

theorem drop_unread {n : Nat} {us : List υ} (h : n ≤ us.length) (v : Stack σ υ) :
    (v.unread us).drop n = v.unread (us.drop n) := by
  simp [drop, unread, List.drop_append_of_le_length h]

@[simp] theorem length_waiting_unread (us : List υ) (v : Stack σ υ) :
    (v.unread us).waiting.length = us.length + v.waiting.length := List.length_append

@[simp] theorem length_waiting_drop (n : Nat) (v : Stack σ υ) :
    (v.drop n).waiting.length = v.waiting.length - n := List.length_drop

@[simp] theorem pulled_unread (us : List υ) (v : Stack σ υ) : (v.unread us).pulled = v.pulled := rfl

@[simp] theorem pulled_drop (n : Nat) (v : Stack σ υ) : (v.drop n).pulled = v.pulled := rfl

theorem isOpen_of_open {v : Stack σ υ} (h : v.stage = .open) : v.IsOpen := by
  intro f hf
  cases h.symm.trans hf

theorem isOpen_of_ended {v : Stack σ υ} (h : v.stage = .ended) : v.IsOpen := by
  intro f hf
  cases h.symm.trans hf

theorem IsOpen.unread {v : Stack σ υ} (h : v.IsOpen) (us : List υ) : (v.unread us).IsOpen := h

variable [Source σ υ]

def pull (v : Stack σ υ) : Except StreamError (Option υ) × Stack σ υ :=
  match Source.next v.source with
  | (.unit u, source) => (.ok (some u), { v with source, pulled := v.pulled + 1 })
  | (.ended, source) => (.ok none, { v with source, stage := .ended })
  | (.failed e, source) =>
    let (fault, source) := Source.close source
    (.error (.failed e), { v with source, stage := .closed fault })

def read (v : Stack σ υ) : Except StreamError (Option υ) × Stack σ υ :=
  match v.stage, v.waiting with
  | .closed _, _ => (.error .closed, v)
  | _, u :: waiting => (.ok (some u), { v with waiting })
  | .ended, [] => (.ok none, v)
  | .open, [] => v.pull

def close (v : Stack σ υ) : Stack σ υ :=
  match v.stage with
  | .closed _ => v
  | _ => ⟨[], (Source.close v.source).2, .closed (Source.close v.source).1, v.pulled⟩

def scan : Nat → Stack σ υ → Scan σ υ
  | 0, v => ⟨[], none, v⟩
  | n + 1, v =>
    match v.read with
    | (.ok (some u), w) => { w.scan n with units := u :: (w.scan n).units }
    | (.ok none, w) => ⟨[], none, w⟩
    | (.error e, w) => ⟨[], some e, w⟩

def peek (n : Nat) (v : Stack σ υ) : Stack σ υ := (v.scan n).rest.unread (v.scan n).units

theorem close_of_closed {v : Stack σ υ} {f : Option IoError} (h : v.stage = .closed f) :
    v.close = v := by
  simp only [close, h]

theorem IsOpen.close {v : Stack σ υ} (h : v.IsOpen) :
    v.close = ⟨[], (Source.close v.source).2, .closed (Source.close v.source).1, v.pulled⟩ := by
  cases hs : v.stage with
  | «open» => simp only [Stack.close, hs]
  | ended => simp only [Stack.close, hs]
  | closed f => exact absurd hs (h f)

theorem close_cases (v : Stack σ υ) : v.close = v ∨ v.IsOpen ∧
    v.close = ⟨[], (Source.close v.source).2, .closed (Source.close v.source).1, v.pulled⟩ := by
  cases hs : v.stage with
  | «open» => exact .inr ⟨isOpen_of_open hs, (isOpen_of_open hs).close⟩
  | ended => exact .inr ⟨isOpen_of_ended hs, (isOpen_of_ended hs).close⟩
  | closed f => exact .inl (close_of_closed hs)

theorem read_unread_cons {v : Stack σ υ} (h : v.IsOpen) (u : υ) (us : List υ) :
    (v.unread (u :: us)).read = (.ok (some u), v.unread us) := by
  cases v with
  | mk waiting source stage pulled =>
    cases stage with
    | «open» => rfl
    | ended => rfl
    | closed f => exact absurd rfl (h f)

inductive Reading (v : Stack σ υ) : Except StreamError (Option υ) × Stack σ υ → Prop
  | closed {f : Option IoError} : v.stage = .closed f → Reading v (.error .closed, v)
  | waiting {u : υ} {us : List υ} :
      v.IsOpen → v.waiting = u :: us → Reading v (.ok (some u), { v with waiting := us })
  | ended : v.stage = .ended → v.waiting = [] → Reading v (.ok none, v)
  | unit {u : υ} {s : σ} : v.stage = .open → v.waiting = [] →
      Source.next v.source = (.unit u, s) →
        Reading v (.ok (some u), { v with source := s, pulled := v.pulled + 1 })
  | last {s : σ} : v.stage = .open → v.waiting = [] → Source.next v.source = (.ended, s) →
      Reading v (.ok none, { v with source := s, stage := .ended })
  | failed {e : IoError} {s : σ} : v.stage = .open → v.waiting = [] →
      Source.next v.source = (.failed e, s) →
        Reading v (.error (.failed e),
          { v with source := (Source.close s).2, stage := .closed (Source.close s).1 })

theorem reading (v : Stack σ υ) : v.Reading v.read := by
  cases v with
  | mk waiting source stage pulled =>
    cases stage with
    | closed f => exact .closed rfl
    | ended =>
      cases waiting with
      | nil => exact .ended rfl rfl
      | cons u us => exact .waiting (by intro f hf; cases hf) rfl
    | «open» =>
      cases waiting with
      | cons u us => exact .waiting (by intro f hf; cases hf) rfl
      | nil =>
        cases hn : Source.next source with
        | mk reply s =>
          cases reply with
          | unit u => simp only [read, pull, hn]; exact .unit rfl rfl hn
          | ended => simp only [read, pull, hn]; exact .last rfl rfl hn
          | failed e => simp only [read, pull, hn]; exact .failed rfl rfl hn

theorem reading_of_eq {v : Stack σ υ} {out : Except StreamError (Option υ) × Stack σ υ}
    (h : v.read = out) : v.Reading out := h ▸ v.reading

theorem IsOpen.of_read {v w : Stack σ υ} {u : υ} (h : v.read = (.ok (some u), w)) : w.IsOpen := by
  cases reading_of_eq h with
  | waiting ho _ => exact ho
  | unit hs _ _ => exact isOpen_of_open hs

theorem waiting_of_read_unit {v w : Stack σ υ} {u : υ} (h : v.read = (.ok (some u), w)) :
    w.waiting = v.waiting.drop 1 := by
  cases reading_of_eq h with
  | waiting _ hw => rw [hw]; rfl
  | unit _ hw _ => rw [hw]; rfl

theorem waiting_of_read_none {v w : Stack σ υ} (h : v.read = (.ok none, w)) : v.waiting = [] := by
  cases reading_of_eq h with
  | ended _ hw => exact hw
  | last _ hw _ => exact hw

theorem read_of_read_none {v w : Stack σ υ} (h : v.read = (.ok none, w)) :
    w.waiting = [] ∧ w.stage = .ended ∧ w.read = (.ok none, w) := by
  suffices hw : w.waiting = [] ∧ w.stage = .ended by
    exact ⟨hw.1, hw.2, by simp only [read, hw.1, hw.2]⟩
  cases reading_of_eq h with
  | ended hs hw => exact ⟨hw, hs⟩
  | last _ hw _ => exact ⟨hw, rfl⟩

theorem closed_of_read_error {v w : Stack σ υ} {e : StreamError} (h : v.read = (.error e, w)) :
    ∃ f, w.stage = .closed f := by
  cases reading_of_eq h with
  | closed hs => exact ⟨_, hs⟩
  | failed _ _ _ => exact ⟨_, rfl⟩

theorem read_closed {v : Stack σ υ} {f : Option IoError} (h : v.stage = .closed f) :
    v.read = (.error .closed, v) := by
  simp only [read, h]

def unitsOf : Except StreamError (Option υ) → List υ
  | .ok (some u) => [u]
  | _ => []

theorem Reading.length_eq {v : Stack σ υ} {out : Except StreamError (Option υ) × Stack σ υ}
    (h : v.Reading out) :
    out.2.waiting.length + (unitsOf out.1).length + v.pulled =
      v.waiting.length + out.2.pulled := by
  cases h with
  | closed _ => rfl
  | waiting _ hw => simp [hw, unitsOf]
  | ended _ _ => rfl
  | unit _ hw _ => simp [hw, unitsOf, Nat.add_comm]
  | last _ _ _ => rfl
  | failed _ _ _ => rfl

theorem Reading.pulled_le {v : Stack σ υ} {out : Except StreamError (Option υ) × Stack σ υ}
    (h : v.Reading out) : v.pulled ≤ out.2.pulled := by
  cases h with
  | closed _ => exact Nat.le_refl _
  | waiting _ _ => exact Nat.le_refl _
  | ended _ _ => exact Nat.le_refl _
  | unit _ _ _ => exact Nat.le_succ _
  | last _ _ _ => exact Nat.le_refl _
  | failed _ _ _ => exact Nat.le_refl _

theorem Reading.length_waiting_le {v : Stack σ υ}
    {out : Except StreamError (Option υ) × Stack σ υ} (h : v.Reading out) :
    out.2.waiting.length ≤ v.waiting.length := by
  cases h with
  | closed _ => exact Nat.le_refl _
  | waiting _ hw => rw [hw]; exact Nat.le_succ _
  | ended _ _ => exact Nat.le_refl _
  | unit _ _ _ => exact Nat.le_refl _
  | last _ _ _ => exact Nat.le_refl _
  | failed _ _ _ => exact Nat.le_refl _

theorem length_waiting_close_le (v : Stack σ υ) : v.close.waiting.length ≤ v.waiting.length := by
  rcases v.close_cases with heq | ⟨-, heq⟩
  · exact Nat.le_of_eq (congrArg (·.waiting.length) heq)
  · rw [heq]
    exact Nat.zero_le _

theorem scan_of_unit {v w : Stack σ υ} {u : υ} (h : v.read = (.ok (some u), w)) (n : Nat) :
    v.scan (n + 1) = { w.scan n with units := u :: (w.scan n).units } := by
  rw [scan, h]

theorem scan_of_none {v w : Stack σ υ} (h : v.read = (.ok none, w)) (n : Nat) :
    v.scan (n + 1) = ⟨[], none, w⟩ := by
  rw [scan, h]

theorem scan_of_error {v w : Stack σ υ} {e : StreamError} (h : v.read = (.error e, w)) (n : Nat) :
    v.scan (n + 1) = ⟨[], some e, w⟩ := by
  rw [scan, h]

theorem length_scan_le (n : Nat) (v : Stack σ υ) : (v.scan n).units.length ≤ n := by
  induction n, v using scan.induct with
  | case1 v => exact Nat.le_refl 0
  | case2 n v u w hr ih => rw [scan_of_unit hr]; exact Nat.succ_le_succ ih
  | case3 n v w hr => rw [scan_of_none hr]; exact Nat.zero_le _
  | case4 n v e w hr => rw [scan_of_error hr]; exact Nat.zero_le _

theorem scan_of_length_lt {n m : Nat} {v : Stack σ υ} (h : (v.scan n).units.length < n)
    (hnm : n ≤ m) : v.scan m = v.scan n := by
  induction n, v using scan.induct generalizing m with
  | case1 v => cases h
  | case2 n v u w hr ih =>
    obtain ⟨m, rfl⟩ := Nat.exists_eq_add_of_le' (Nat.zero_lt_of_lt hnm)
    rw [scan_of_unit hr] at h
    rw [scan_of_unit hr, scan_of_unit hr,
      ih (Nat.lt_of_succ_lt_succ h) (Nat.le_of_succ_le_succ hnm)]
  | case3 n v w hr =>
    obtain ⟨m, rfl⟩ := Nat.exists_eq_add_of_le' (Nat.zero_lt_of_lt hnm)
    rw [scan_of_none hr, scan_of_none hr]
  | case4 n v e w hr =>
    obtain ⟨m, rfl⟩ := Nat.exists_eq_add_of_le' (Nat.zero_lt_of_lt hnm)
    rw [scan_of_error hr, scan_of_error hr]

theorem scan_units_take {n m : Nat} (h : n ≤ m) (v : Stack σ υ) :
    (v.scan n).units = (v.scan m).units.take n := by
  induction n, v using scan.induct generalizing m with
  | case1 v => rfl
  | case2 n v u w hr ih =>
    obtain ⟨m, rfl⟩ := Nat.exists_eq_add_of_le' (Nat.zero_lt_of_lt h)
    rw [scan_of_unit hr, scan_of_unit hr, List.take_succ_cons, ih (Nat.le_of_succ_le_succ h)]
  | case3 n v w hr =>
    obtain ⟨m, rfl⟩ := Nat.exists_eq_add_of_le' (Nat.zero_lt_of_lt h)
    rw [scan_of_none hr, scan_of_none hr]
    rfl
  | case4 n v e w hr =>
    obtain ⟨m, rfl⟩ := Nat.exists_eq_add_of_le' (Nat.zero_lt_of_lt h)
    rw [scan_of_error hr, scan_of_error hr]
    rfl

theorem length_scan_lt {n : Nat} {v : Stack σ υ} {e : StreamError}
    (h : (v.scan n).fault = some e) : (v.scan n).units.length < n := by
  induction n, v using scan.induct with
  | case1 v => cases h
  | case2 n v u w hr ih => rw [scan_of_unit hr] at h ⊢; exact Nat.succ_lt_succ (ih h)
  | case3 n v w hr => rw [scan_of_none hr]; exact Nat.succ_pos n
  | case4 n v e w hr => rw [scan_of_error hr]; exact Nat.succ_pos n

theorem scan_fault_mono {n m : Nat} (h : n ≤ m) {v : Stack σ υ} (hm : (v.scan m).fault = none) :
    (v.scan n).fault = none := by
  cases hn : (v.scan n).fault with
  | none => rfl
  | some e => rw [scan_of_length_lt (length_scan_lt hn) h, hn] at hm; cases hm

theorem scan_fault_max {n m : Nat} {v : Stack σ υ} (hn : (v.scan n).fault = none)
    (hm : (v.scan m).fault = none) : (v.scan (max n m)).fault = none := by
  rcases Nat.le_total n m with h | h
  · rwa [Nat.max_eq_right h]
  · rwa [Nat.max_eq_left h]

theorem length_scan (n : Nat) (v : Stack σ υ) :
    (v.scan n).rest.waiting.length + (v.scan n).units.length + v.pulled =
      v.waiting.length + (v.scan n).rest.pulled := by
  induction n, v using scan.induct with
  | case1 v => rfl
  | case2 n v u w hr ih =>
    have hl := (reading_of_eq hr).length_eq
    rw [scan_of_unit hr]
    simp only [unitsOf, List.length_cons, List.length_nil] at hl ⊢
    omega
  | case3 n v w hr =>
    have hl := (reading_of_eq hr).length_eq
    rw [scan_of_none hr]
    exact hl
  | case4 n v e w hr =>
    have hl := (reading_of_eq hr).length_eq
    rw [scan_of_error hr]
    exact hl

theorem pulled_le_scan (n : Nat) (v : Stack σ υ) : v.pulled ≤ (v.scan n).rest.pulled := by
  induction n, v using scan.induct with
  | case1 v => exact Nat.le_refl _
  | case2 n v u w hr ih =>
    have hle := (reading_of_eq hr).pulled_le
    rw [scan_of_unit hr]
    exact Nat.le_trans hle ih
  | case3 n v w hr =>
    have hle := (reading_of_eq hr).pulled_le
    rw [scan_of_none hr]
    exact hle
  | case4 n v e w hr =>
    have hle := (reading_of_eq hr).pulled_le
    rw [scan_of_error hr]
    exact hle

theorem ended_of_scan_nil {n : Nat} {v : Stack σ υ} (hu : (v.scan (n + 1)).units = [])
    (hf : (v.scan (n + 1)).fault = none) :
    (v.scan (n + 1)).rest.waiting = [] ∧ (v.scan (n + 1)).rest.stage = .ended := by
  cases hr : v.read with
  | mk answer w =>
    cases answer with
    | error e => rw [scan_of_error hr] at hf; cases hf
    | ok unit =>
      cases unit with
      | none =>
        have hend := read_of_read_none hr
        rw [scan_of_none hr]
        exact ⟨hend.1, hend.2.1⟩
      | some u => rw [scan_of_unit hr] at hu; cases hu

theorem waiting_scan {n : Nat} {v : Stack σ υ} (h : (v.scan n).fault = none) :
    (v.scan n).rest.waiting = v.waiting.drop n := by
  induction n, v using scan.induct with
  | case1 v => rfl
  | case2 n v u w hr ih =>
    rw [scan_of_unit hr] at h ⊢
    rw [ih h, waiting_of_read_unit hr, List.drop_drop, Nat.add_comm]
  | case3 n v w hr =>
    rw [scan_of_none hr, (read_of_read_none hr).1, waiting_of_read_none hr, List.drop_nil]
  | case4 n v e w hr => rw [scan_of_error hr] at h; cases h

theorem closed_scan {n : Nat} {v : Stack σ υ} {e : StreamError} (h : (v.scan n).fault = some e) :
    ∃ f, (v.scan n).rest.stage = .closed f := by
  induction n, v using scan.induct with
  | case1 v => cases h
  | case2 n v u w hr ih => rw [scan_of_unit hr] at h ⊢; exact ih h
  | case3 n v w hr => rw [scan_of_none hr] at h; cases h
  | case4 n v e w hr => rw [scan_of_error hr]; exact closed_of_read_error hr

theorem IsOpen.failed_of_scan {n : Nat} {v : Stack σ υ} {e : StreamError} (ho : v.IsOpen)
    (h : (v.scan n).fault = some e) :
    (∃ cause, e = .failed cause) ∧ (v.scan n).rest.waiting = [] := by
  induction n, v using scan.induct with
  | case1 v => cases h
  | case2 n v u w hr ih => rw [scan_of_unit hr] at h ⊢; exact ih (.of_read hr) h
  | case3 n v w hr => rw [scan_of_none hr] at h; cases h
  | case4 n v e' w hr =>
    rw [scan_of_error hr] at h ⊢
    cases h
    cases reading_of_eq hr with
    | closed hs => exact absurd hs (ho _)
    | failed _ hw _ => exact ⟨⟨_, rfl⟩, hw⟩

theorem IsOpen.scan {n : Nat} {v : Stack σ υ} (ho : v.IsOpen) (h : (v.scan n).fault = none) :
    (v.scan n).rest.IsOpen := by
  induction n, v using scan.induct with
  | case1 v => exact ho
  | case2 n v u w hr ih => rw [scan_of_unit hr] at h ⊢; exact ih (.of_read hr) h
  | case3 n v w hr => rw [scan_of_none hr]; exact isOpen_of_ended (read_of_read_none hr).2.1
  | case4 n v e w hr => rw [scan_of_error hr] at h; cases h

theorem peek_of_unit {v w : Stack σ υ} {u : υ} (h : v.read = (.ok (some u), w)) (n : Nat) :
    v.peek (n + 1) = (w.peek n).unread [u] := by
  rw [peek, scan_of_unit h, peek, unread_unread]
  rfl

theorem peek_of_none {v w : Stack σ υ} (h : v.read = (.ok none, w)) (n : Nat) :
    v.peek (n + 1) = w := by
  rw [peek, scan_of_none h]
  rfl

theorem IsOpen.peek {n : Nat} {v : Stack σ υ} (ho : v.IsOpen) (h : (v.scan n).fault = none) :
    (v.peek n).IsOpen := (ho.scan h).unread _

theorem read_peek_of_unit {n : Nat} {v w : Stack σ υ} {u : υ} (hr : v.read = (.ok (some u), w))
    (h : (w.scan n).fault = none) : (v.peek (n + 1)).read = (.ok (some u), w.peek n) := by
  have ho : (w.peek n).IsOpen := (IsOpen.of_read hr).peek h
  rw [peek_of_unit hr, read_unread_cons ho, unread_nil]

theorem scan_peek {n m : Nat} (hnm : n ≤ m) {v : Stack σ υ} (h : (v.scan n).fault = none) :
    (v.peek n).scan m = v.scan m := by
  induction n, v using scan.induct generalizing m with
  | case1 v => rfl
  | case2 n v u w hr ih =>
    obtain ⟨m, rfl⟩ := Nat.exists_eq_add_of_le' (Nat.zero_lt_of_lt hnm)
    rw [scan_of_unit hr] at h
    rw [scan_of_unit (read_peek_of_unit hr h), ih (Nat.le_of_succ_le_succ hnm) h, scan_of_unit hr]
  | case3 n v w hr =>
    obtain ⟨m, rfl⟩ := Nat.exists_eq_add_of_le' (Nat.zero_lt_of_lt hnm)
    rw [peek_of_none hr, scan_of_none (read_of_read_none hr).2.2, scan_of_none hr]
  | case4 n v e w hr => rw [scan_of_error hr] at h; cases h

theorem peek_peek_of_le {n m : Nat} (hmn : m ≤ n) {v : Stack σ υ} (h : (v.scan n).fault = none) :
    (v.peek n).peek m = v.peek n := by
  induction n, v using scan.induct generalizing m with
  | case1 v => rw [Nat.le_zero.1 hmn]; rfl
  | case2 n v u w hr ih =>
    cases m with
    | zero => rfl
    | succ m =>
      rw [scan_of_unit hr] at h
      rw [peek_of_unit (read_peek_of_unit hr h), ih (Nat.le_of_succ_le_succ hmn) h,
        peek_of_unit hr]
  | case3 n v w hr =>
    cases m with
    | zero => rfl
    | succ m => rw [peek_of_none hr, peek_of_none (read_of_read_none hr).2.2]
  | case4 n v e w hr => rw [scan_of_error hr] at h; cases h

theorem peek_peek {n m : Nat} {v : Stack σ υ} (h : (v.scan n).fault = none) :
    (v.peek n).peek m = v.peek (max n m) := by
  rcases Nat.le_total n m with hnm | hmn
  · rw [Nat.max_eq_right hnm, peek, scan_peek hnm h, peek]
  · rw [Nat.max_eq_left hmn, peek_peek_of_le hmn h]

theorem read_peek {n k : Nat} {v : Stack σ υ} {u : υ} {us : List υ}
    (hu : (v.scan k).units = u :: us) (h : (v.scan (n + 1)).fault = none) :
    (v.peek (n + 1)).read = (.ok (some u), (v.peek (n + 1)).drop 1) := by
  cases k, v using scan.induct with
  | case1 v => cases hu
  | case2 k v a w hr _ =>
    rw [scan_of_unit hr] at hu h
    cases hu
    rw [read_peek_of_unit hr h, peek_of_unit hr, drop_unread (Nat.le_refl 1)]
    rfl
  | case3 k v w hr => rw [scan_of_none hr] at hu; cases hu
  | case4 k v e w hr => rw [scan_of_error hr] at h; cases h

theorem scan_units_peek {n : Nat} {v : Stack σ υ} (h : (v.scan n).fault = none) (m : Nat) :
    ((v.peek n).scan m).units = (v.scan m).units := by
  rcases Nat.le_total n m with hnm | hmn
  · rw [scan_peek hnm h]
  · rw [scan_units_take hmn, scan_peek (Nat.le_refl n) h, ← scan_units_take hmn]

theorem scan_fault_peek {n : Nat} {v : Stack σ υ} (h : (v.scan n).fault = none) (m : Nat) :
    ((v.peek n).scan m).fault = (v.scan m).fault := by
  rcases Nat.le_total n m with hnm | hmn
  · rw [scan_peek hnm h]
  · rw [scan_fault_mono hmn h]
    exact scan_fault_mono hmn ((scan_peek (Nat.le_refl n) h).symm ▸ h)

theorem scan_drop {k n : Nat} {v : Stack σ υ} (ho : v.IsOpen) (hk : k ≤ v.waiting.length)
    (hn : k ≤ n) : (v.drop k).scan (n - k) =
      { v.scan n with units := (v.scan n).units.drop k } := by
  induction k generalizing v n with
  | zero => rfl
  | succ k ih =>
    obtain ⟨n, rfl⟩ := Nat.exists_eq_add_of_le' (Nat.zero_lt_of_lt hn)
    cases v with
    | mk waiting source stage pulled =>
      cases waiting with
      | nil => cases hk
      | cons u us =>
        have hr : (Stack.mk (u :: us) source stage pulled).read =
            (.ok (some u), ⟨us, source, stage, pulled⟩) :=
          read_unread_cons (v := ⟨us, source, stage, pulled⟩) ho u []
        rw [scan_of_unit hr, Nat.add_sub_add_right]
        exact ih (v := ⟨us, source, stage, pulled⟩) ho (Nat.le_of_succ_le_succ hk)
          (Nat.le_of_succ_le_succ hn)

theorem scan_drop_peek {k n m : Nat} {v : Stack σ υ} (ho : v.IsOpen)
    (h : (v.scan n).fault = none) (hk : k ≤ (v.scan n).units.length) (hnm : n ≤ m) :
    ((v.peek n).drop k).scan (m - k) = { v.scan m with units := (v.scan m).units.drop k } := by
  have hkn : k ≤ n := Nat.le_trans hk (length_scan_le n v)
  have hw : k ≤ (v.peek n).waiting.length := by
    rw [peek, length_waiting_unread]
    exact Nat.le_add_right_of_le hk
  rw [scan_drop (ho.peek h) hw (Nat.le_trans hkn hnm), scan_peek hnm h]

/-- `n` reads bring `us`, and then the fault if there is one. -/
structure Shows (v : Stack σ υ) (n : Nat) (us : List υ) (fault : Option StreamError) : Prop where
  isOpen : v.IsOpen
  units_eq : (v.scan n).units = us
  fault_eq : (v.scan n).fault = fault

theorem Shows.length_le {v : Stack σ υ} {n : Nat} {us : List υ} {fault : Option StreamError}
    (h : v.Shows n us fault) : us.length ≤ n := by
  rw [← h.units_eq]
  exact length_scan_le n v

theorem Shows.no_fault {v : Stack σ υ} {m n : Nat} {us : List υ} {fault : Option StreamError}
    (h : v.Shows n us fault) (hm : m ≤ us.length) : (v.scan m).fault = none := by
  have htake := scan_units_take (Nat.le_trans hm h.length_le) v
  rw [h.units_eq] at htake
  cases hf : (v.scan m).fault with
  | none => rfl
  | some e =>
    have hlt := length_scan_lt hf
    rw [htake, List.length_take] at hlt
    omega

theorem Shows.drop_peek {v : Stack σ υ} {k m n : Nat} {us : List υ} {fault : Option StreamError}
    (h : v.Shows n us fault) (hm : (v.scan m).fault = none) (hmn : m ≤ n)
    (hk : k ≤ (us.take m).length) : ((v.peek m).drop k).Shows (n - k) (us.drop k) fault := by
  have hk : k ≤ (v.scan m).units.length := by rwa [scan_units_take hmn, h.units_eq]
  have hscan := scan_drop_peek h.isOpen hm hk hmn
  refine ⟨h.isOpen.peek hm, ?_, ?_⟩
  · rw [hscan, h.units_eq]
  · rw [hscan, h.fault_eq]

end Stack

/-- The first units that `s` delivers are `us`. Anything may follow. -/
inductive Begins {σ υ : Type} [Source σ υ] : σ → List υ → Prop
  | nil {s : σ} : Begins s []
  | cons {s s' : σ} {u : υ} {us : List υ} :
      Source.next s = (.unit u, s') → Begins s' us → Begins s (u :: us)

def Reply.fault? {υ : Type} : Reply υ → Option StreamError
  | .failed e => some (.failed e)
  | _ => none

variable {σ υ : Type} [Source σ υ]

theorem Stack.scan_of_begins {s : σ} {us : List υ} (h : Begins s us) (pulled : Nat) :
    ∃ w, Stack.scan us.length ⟨[], s, .open, pulled⟩ = ⟨us, none, w⟩ := by
  induction h generalizing pulled with
  | nil => exact ⟨_, rfl⟩
  | cons hn _ ih =>
    obtain ⟨w, hw⟩ := ih (pulled + 1)
    refine ⟨w, ?_⟩
    simp only [List.length_cons, scan, read, pull, hn, hw]

theorem Stack.scan_of_delivers {s : σ} {us : List υ} {stop : Reply υ} (h : Delivers s us stop)
    (pulled : Nat) :
    ∃ w, Stack.scan (us.length + 1) ⟨[], s, .open, pulled⟩ = ⟨us, stop.fault?, w⟩ := by
  induction h generalizing pulled with
  | unit hn _ ih =>
    obtain ⟨w, hw⟩ := ih (pulled + 1)
    refine ⟨w, ?_⟩
    rw [List.length_cons, scan]
    simp only [read, pull, hn, hw]
  | ended hn => exact ⟨_, by simp only [scan, read, pull, hn, Reply.fault?]; rfl⟩
  | failed hn => exact ⟨_, by simp only [scan, read, pull, hn, Reply.fault?]; rfl⟩

theorem Stack.shows_of_begins {s : σ} {us : List υ} (h : Begins s us) :
    (ofSource s : Stack σ υ).Shows us.length us none := by
  obtain ⟨w, hw⟩ := scan_of_begins h 0
  exact ⟨nofun, by rw [ofSource, hw], by rw [ofSource, hw]⟩

theorem Stack.shows_of_delivers {s : σ} {us : List υ} {stop : Reply υ} (h : Delivers s us stop) :
    (ofSource s : Stack σ υ).Shows (us.length + 1) us stop.fault? := by
  obtain ⟨w, hw⟩ := scan_of_delivers h 0
  exact ⟨nofun, by rw [ofSource, hw], by rw [ofSource, hw]⟩

end Munch
