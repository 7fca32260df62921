import Mathlib.Data.List.Basic
import Mathlib.Data.Nat.ModEq
import Munch.Ring

namespace Munch.Ring

variable {α : Type}

/-- The slots from the head on hold `as` and then nothing. -/
structure Holds (r : Ring α) (as : List α) : Prop where
  length_eq : r.length = as.length
  length_le : as.length ≤ r.capacity
  head_lt : r.head < r.capacity ∨ r.head = 0 ∧ r.capacity = 0
  get?_eq : ∀ i < r.capacity, r.get? i = as[i]?

theorem Holds.empty (n : Nat) : (empty n : Ring α).Holds [] where
  length_eq := rfl
  length_le := Nat.zero_le _
  head_lt := by
    rw [capacity_empty]
    exact n.eq_zero_or_pos.elim (fun h => .inr ⟨rfl, h⟩) .inl
  get?_eq i hi := by
    have hi : i % n < n := Nat.mod_lt _ (by rw [capacity_empty] at hi; exact Nat.zero_lt_of_lt hi)
    simp [get?, Ring.empty, capacity, hi]

theorem filterMap_getElem?_range (as : List α) :
    (List.range as.length).filterMap (fun i => as[i]?) = as := by
  induction as with
  | nil => rfl
  | cons a as ih =>
    rw [List.length_cons, List.range_succ_eq_map, List.filterMap_cons, List.filterMap_map]
    exact congrArg (a :: ·) ih

theorem Holds.toList_eq {r : Ring α} {as : List α} (h : r.Holds as) : r.toList = as := by
  have hget : ∀ i ∈ List.range as.length, r.get? i = as[i]? := by
    intro i hi
    exact h.get?_eq i (Nat.lt_of_lt_of_le (List.mem_range.1 hi) h.length_le)
  calc
    r.toList = (List.range as.length).filterMap r.get? := by rw [toList, h.length_eq]
    _ = (List.range as.length).filterMap (fun i => as[i]?) := List.filterMap_congr hget
    _ = as := filterMap_getElem?_range as

theorem slot_ne (head : Nat) {capacity i j : Nat} (hi : i < capacity) (hj : j < capacity)
    (h : i ≠ j) :
    (head + i) % capacity ≠ (head + j) % capacity := by
  intro he
  apply h
  exact (Nat.ModEq.add_left_cancel' head he).eq_of_lt_of_lt hi hj

theorem slot_after_push (head i : Nat) {capacity : Nat} (h : 0 < capacity) :
    ((head + capacity - 1) % capacity + (i + 1)) % capacity = (head + i) % capacity := by
  rw [Nat.mod_add_mod, show head + capacity - 1 + (i + 1) = head + i + capacity by omega,
    Nat.add_mod_right]

theorem slot_after_pop (head i capacity : Nat) :
    ((head + 1) % capacity + i) % capacity = (head + (i + 1)) % capacity := by
  rw [Nat.mod_add_mod, show head + 1 + i = head + (i + 1) by omega]

theorem get?_pushFront_zero {r : Ring α} (a : α) (h : 0 < r.capacity) :
    (r.pushFront a).get? 0 = some a := by
  have hlt : (r.head + r.capacity - 1) % r.capacity < r.slots.size := Nat.mod_lt _ h
  rw [get?, capacity_pushFront, Nat.add_zero]
  simp only [pushFront]
  rw [Nat.mod_mod, Array.getElem?_setIfInBounds_self_of_lt hlt]
  rfl

theorem get?_pushFront_succ {r : Ring α} (a : α) {i : Nat} (h : i + 1 < r.capacity) :
    (r.pushFront a).get? (i + 1) = r.get? i := by
  have hpos : 0 < r.capacity := Nat.zero_lt_of_lt h
  have hne := slot_ne ((r.head + r.capacity - 1) % r.capacity) hpos h (Nat.succ_ne_zero i).symm
  rw [Nat.add_zero, Nat.mod_mod] at hne
  rw [get?, capacity_pushFront]
  simp only [pushFront]
  rw [Array.getElem?_setIfInBounds_ne hne, slot_after_push r.head i hpos, get?]

theorem get?_popFront {r : Ring α} (hlen : r.length ≠ 0) (hhead : r.head < r.capacity) {i : Nat}
    (h : i < r.capacity) :
    r.popFront.2.get? i = if i + 1 < r.capacity then r.get? (i + 1) else none := by
  have hpos : 0 < r.capacity := Nat.zero_lt_of_lt h
  rw [get?, capacity_popFront]
  simp only [popFront, hlen, if_false]
  rw [slot_after_pop]
  split
  · next hi =>
    have hne := slot_ne r.head hpos hi (Nat.succ_ne_zero i).symm
    rw [Nat.add_zero, Nat.mod_eq_of_lt hhead] at hne
    rw [Array.getElem?_setIfInBounds_ne hne, get?]
  · next hi =>
    -- the last slot of a full turn is the one just left
    rw [show i + 1 = r.capacity by omega, Nat.add_mod_right, Nat.mod_eq_of_lt hhead,
      Array.getElem?_setIfInBounds_self_of_lt hhead]
    rfl

theorem Holds.pushFront {r : Ring α} {as : List α} (h : r.Holds as) (a : α)
    (hroom : as.length < r.capacity) : (r.pushFront a).Holds (a :: as) where
  length_eq := by rw [length_pushFront, h.length_eq, List.length_cons]
  length_le := by rw [capacity_pushFront]; exact hroom
  head_lt := by
    rw [capacity_pushFront]
    exact .inl (Nat.mod_lt _ (Nat.zero_lt_of_lt hroom))
  get?_eq i hi := by
    rw [capacity_pushFront] at hi
    cases i with
    | zero => exact get?_pushFront_zero a hi
    | succ i => rw [get?_pushFront_succ a hi, h.get?_eq i (Nat.lt_of_succ_lt hi)]; rfl

theorem Holds.popFront_nil {r : Ring α} (h : r.Holds []) : r.popFront = (none, r) := by
  have hlen : r.length = 0 := h.length_eq
  rw [Ring.popFront, if_pos hlen]

theorem Holds.head_lt_of_cons {r : Ring α} {a : α} {as : List α} (h : r.Holds (a :: as)) :
    r.head < r.capacity := by
  have := h.length_le
  have := h.head_lt
  simp only [List.length_cons] at *
  omega

theorem Holds.popFront_fst {r : Ring α} {a : α} {as : List α} (h : r.Holds (a :: as)) :
    r.popFront.1 = some a := by
  have hhead := h.head_lt_of_cons
  have hget := h.get?_eq 0 (Nat.zero_lt_of_lt hhead)
  rw [get?, Nat.add_zero, Nat.mod_eq_of_lt hhead] at hget
  rw [Ring.popFront, if_neg (by rw [h.length_eq]; exact Nat.succ_ne_zero _)]
  exact hget

theorem Holds.popFront_snd {r : Ring α} {a : α} {as : List α} (h : r.Holds (a :: as)) :
    r.popFront.2.Holds as where
  length_eq := by rw [length_popFront, h.length_eq]; rfl
  length_le := by rw [capacity_popFront]; exact Nat.le_of_succ_le h.length_le
  head_lt := by
    rw [capacity_popFront, Ring.popFront, if_neg (by rw [h.length_eq]; exact Nat.succ_ne_zero _)]
    exact .inl (Nat.mod_lt _ (Nat.zero_lt_of_lt h.head_lt_of_cons))
  get?_eq i hi := by
    rw [capacity_popFront] at hi
    rw [get?_popFront (by rw [h.length_eq]; exact Nat.succ_ne_zero _) h.head_lt_of_cons hi]
    split
    · next hi => rw [h.get?_eq (i + 1) hi, List.getElem?_cons_succ]
    · next hi =>
      have := h.length_le
      simp only [List.length_cons] at this
      exact (List.getElem?_eq_none (by omega)).symm

theorem Holds.popFront_of_none {r r' : Ring α} {as : List α} (h : r.Holds as)
    (hp : r.popFront = (none, r')) : r' = r := by
  cases as with
  | nil =>
    rw [h.popFront_nil] at hp
    exact (Prod.mk.inj hp).2.symm
  | cons a as =>
    have hfst := h.popFront_fst
    rw [hp] at hfst
    cases hfst

theorem Holds.slot_eq {r : Ring α} {as : List α} (h : r.Holds as) {i : Nat} (hi : i < r.capacity) :
    r.slots[(r.head + i) % r.capacity]? = some as[i]? := by
  have hlt : (r.head + i) % r.capacity < r.slots.size := Nat.mod_lt _ (Nat.zero_lt_of_lt hi)
  have hget := h.get?_eq i hi
  rw [get?, Array.getElem?_eq_getElem hlt] at hget
  rw [Array.getElem?_eq_getElem hlt]
  exact congrArg some hget

theorem Holds.slot_before_head {r : Ring α} {as : List α} (h : r.Holds as)
    (hroom : as.length < r.capacity) :
    r.slots[(r.head + r.capacity - 1) % r.capacity]? = some none := by
  have hpos : 0 < r.capacity := Nat.zero_lt_of_lt hroom
  rw [Nat.add_sub_assoc hpos, h.slot_eq (Nat.sub_one_lt_of_lt hpos),
    List.getElem?_eq_none (Nat.le_sub_one_of_lt hroom)]

theorem setIfInBounds_eq_self {slots : Array (Option α)} {i : Nat} {a : Option α}
    (h : slots[i]? = some a) : slots.setIfInBounds i a = slots := by
  have hi : i < slots.size := (Array.getElem?_eq_some_iff.1 h).1
  apply Array.ext_getElem?
  intro j
  by_cases hij : i = j
  · rw [← hij, Array.getElem?_setIfInBounds_self_of_lt hi, h]
  · rw [Array.getElem?_setIfInBounds_ne hij]

theorem Holds.popFront_pushFront {r : Ring α} {as : List α} (h : r.Holds as) (a : α)
    (hroom : as.length < r.capacity) : (r.pushFront a).popFront = (some a, r) := by
  have hpos : 0 < r.capacity := Nat.zero_lt_of_lt hroom
  have hhead : ((r.head + r.capacity - 1) % r.capacity + 1) % r.capacity = r.head := by
    have hlt := h.head_lt.resolve_right fun hzero => absurd hzero.2 (Nat.ne_of_gt hpos)
    rw [slot_after_push r.head 0 hpos, Nat.add_zero, Nat.mod_eq_of_lt hlt]
  have hslots : (r.slots.setIfInBounds ((r.head + r.capacity - 1) % r.capacity)
      (some a)).setIfInBounds ((r.head + r.capacity - 1) % r.capacity) none = r.slots := by
    rw [Array.setIfInBounds_setIfInBounds, setIfInBounds_eq_self (h.slot_before_head hroom)]
  have hlength : (r.pushFront a).length ≠ 0 := Nat.succ_ne_zero _
  refine Prod.ext (h.pushFront a hroom).popFront_fst ?_
  rw [popFront, if_neg hlength, capacity_pushFront]
  simp only [Ring.pushFront, hslots, hhead, Nat.add_sub_cancel]

theorem Holds.clear {r : Ring α} {as : List α} (h : r.Holds as) : r.clear.Holds [] := by
  induction as generalizing r with
  | nil => rw [Ring.clear, h.popFront_nil]; exact h
  | cons a as ih =>
    rw [Ring.clear]
    split
    · exact ih h.popFront_snd
    · next hn => rw [h.popFront_fst] at hn; cases hn

@[simp] theorem capacity_clear (r : Ring α) : r.clear.capacity = r.capacity := by
  induction r using Ring.clear.induct with
  | case1 r a h ih => rw [Ring.clear]; split <;> simp_all
  | case2 r h => rw [Ring.clear]; split <;> simp_all

end Munch.Ring
