import Mathlib
import Munch.Proofs.Ring

namespace Munch.Ring

variable {α ρ : Type}

inductive Call (α : Type)
  | pushFront (a : α)
  | popFront
  | clear

namespace Call

def onList (as : List α) : Call α → Option α × List α
  | pushFront a => (none, a :: as)
  | popFront => (as.head?, as.tail)
  | clear => (none, [])

def Fits (r : Ring α) : Call α → Prop
  | pushFront _ => r.length < r.capacity
  | popFront => True
  | clear => True

end Call

def perform (r : Ring α) : Call α → Option α × Ring α
  | .pushFront a => (none, r.pushFront a)
  | .popFront => r.popFront
  | .clear => (none, r.clear)

def session (step : ρ → Call α → Option α × ρ) (r : ρ) : List (Call α) → List (Option α) × ρ
  | [] => ([], r)
  | call :: calls =>
    ((step r call).1 :: (session step (step r call).2 calls).1,
      (session step (step r call).2 calls).2)

def AllFit (r : Ring α) : List (Call α) → Prop
  | [] => True
  | call :: calls => call.Fits r ∧ (r.perform call).2.AllFit calls

variable {r : Ring α} {as : List α}

theorem Holds.popFront_eq_head? (h : r.Holds as) :
    r.popFront.1 = as.head? ∧ r.popFront.2.Holds as.tail := by
  cases as with
  | nil => rw [h.popFront_nil]; exact ⟨rfl, h⟩
  | cons a as => exact ⟨h.popFront_fst, h.popFront_snd⟩

theorem Holds.perform (h : r.Holds as) {call : Call α} (hfit : call.Fits r) :
    (r.perform call).1 = (call.onList as).1 ∧ (r.perform call).2.Holds (call.onList as).2 := by
  cases call with
  | pushFront a =>
    rw [Call.Fits, h.length_eq] at hfit
    exact ⟨rfl, h.pushFront a hfit⟩
  | popFront => exact h.popFront_eq_head?
  | clear => exact ⟨rfl, h.clear⟩

theorem capacity_perform (r : Ring α) (call : Call α) :
    (r.perform call).2.capacity = r.capacity := by
  cases call with
  | pushFront a => exact r.capacity_pushFront a
  | popFront => exact r.capacity_popFront
  | clear => exact r.capacity_clear

theorem capacity_session (r : Ring α) (calls : List (Call α)) :
    (session perform r calls).2.capacity = r.capacity := by
  induction calls generalizing r with
  | nil => rfl
  | cons call calls ih => rw [session, ih, capacity_perform]

theorem Holds.session {calls : List (Call α)} (h : r.Holds as) (hfit : r.AllFit calls) :
    (Ring.session Ring.perform r calls).1 = (Ring.session Call.onList as calls).1 ∧
      (Ring.session Ring.perform r calls).2.Holds (Ring.session Call.onList as calls).2 := by
  induction calls generalizing r as with
  | nil => exact ⟨rfl, h⟩
  | cons call calls ih =>
    obtain ⟨hanswer, hnext⟩ := h.perform hfit.1
    obtain ⟨hanswers, hlast⟩ := ih hnext hfit.2
    exact ⟨congrArg₂ List.cons hanswer hanswers, hlast⟩

def taken (n : Nat) (r : Ring α) : Ring α := (·.popFront.2)^[n] r

theorem Holds.taken (h : r.Holds as) (n : Nat) : (r.taken n).Holds (as.drop n) := by
  induction n generalizing r as with
  | zero => exact h
  | succ n ih =>
    rw [Ring.taken, Function.iterate_succ_apply, ← List.drop_tail]
    exact ih h.popFront_eq_head?.2

theorem Holds.clear_eq_taken (h : r.Holds as) : r.clear = r.taken as.length := by
  induction as generalizing r with
  | nil =>
    rw [Ring.clear, h.popFront_nil]
    rfl
  | cons a as ih =>
    rw [List.length_cons, Ring.taken, Function.iterate_succ_apply, Ring.clear]
    split
    · exact ih h.popFront_snd
    · next hn => rw [h.popFront_fst] at hn; cases hn

theorem exists_slot_eq {head capacity i : Nat} (hhead : head < capacity) (hi : i < capacity) :
    ∃ j < capacity, (head + j) % capacity = i := by
  refine ⟨(capacity - head + i) % capacity, Nat.mod_lt _ (Nat.zero_lt_of_lt hi), ?_⟩
  rw [Nat.add_mod_mod, show head + (capacity - head + i) = i + capacity by omega,
    Nat.add_mod_right, Nat.mod_eq_of_lt hi]

theorem Holds.slots_of_nil (h : r.Holds []) {i : Nat} (hi : i < r.capacity) :
    r.slots[i]? = some none := by
  have hhead : r.head < r.capacity :=
    h.head_lt.resolve_right fun hzero => Nat.not_lt_zero i (hzero.2 ▸ hi)
  obtain ⟨j, hj, rfl⟩ := exists_slot_eq hhead hi
  exact h.slot_eq hj

theorem Holds.popFront_eq_none_iff (h : r.Holds as) : r.popFront.1 = none ↔ r.length = 0 := by
  rw [h.popFront_eq_head?.1, List.head?_eq_none_iff, h.length_eq, List.length_eq_zero_iff]

/-- In any session of a ring in which elements are only put where there is room, the slots are full
from the head on as far as the length goes, and empty behind that. What they hold is the list that
the same calls make of an empty one, and the answers are the same. The next call would go on like
this: an element is consed, the head is taken unless there is none, and clearing takes as many
elements as there are and leaves all slots empty. -/
theorem session_eq_list (capacity : Nat) (calls : List (Call α))
    (hfit : (empty capacity).AllFit calls) :
    let r := (session perform (empty capacity) calls).2
    (r.capacity = capacity ∧ r.length ≤ capacity ∧
      (r.head < capacity ∨ r.head = 0 ∧ capacity = 0) ∧
      ∀ i < capacity, ∃ slot, r.slots[(r.head + i) % capacity]? = some slot ∧
        slot = r.toList[i]? ∧ (slot.isSome ↔ i < r.length)) ∧
      session perform (empty capacity) calls = ((session Call.onList [] calls).1, r) ∧
      r.toList = (session Call.onList [] calls).2 ∧
      (∀ a, r.length < capacity → (r.pushFront a).toList = a :: r.toList) ∧
      (r.popFront.1 = r.toList.head? ∧ r.popFront.2.toList = r.toList.tail ∧
        (r.popFront.1 = none ↔ r.length = 0)) ∧
      (∀ n, (r.taken n).popFront.1 = none ↔ r.length ≤ n) ∧
      r.clear = r.taken r.length ∧ r.clear.length = 0 ∧
      ∀ i < capacity, r.clear.slots[i]? = some none := by
  -- all that is needed of the session is the list that its ring holds in the end
  obtain ⟨hanswers, hholds⟩ := (Holds.empty (α := α) capacity).session hfit
  have hcapacity := capacity_session (empty capacity : Ring α) calls
  rw [capacity_empty] at hcapacity
  generalize session perform (empty capacity) calls = out at hanswers hholds hcapacity
  generalize session Call.onList [] calls = spec at hanswers hholds
  obtain ⟨answers, r⟩ := out
  obtain ⟨_, as⟩ := spec
  dsimp only at hanswers hholds hcapacity ⊢
  subst hcapacity hanswers
  rw [hholds.toList_eq]
  refine ⟨⟨rfl, hholds.length_eq ▸ hholds.length_le, hholds.head_lt, fun i hi => ?_⟩, rfl, rfl,
    fun a hroom => ?_, ⟨hholds.popFront_eq_head?.1, hholds.popFront_eq_head?.2.toList_eq,
      hholds.popFront_eq_none_iff⟩, fun n => ?_, ?_, hholds.clear.length_eq, fun i hi => ?_⟩
  · refine ⟨as[i]?, hholds.slot_eq hi, rfl, ?_⟩
    rw [hholds.length_eq, isSome_getElem?]
  · rw [hholds.length_eq] at hroom
    exact (hholds.pushFront a hroom).toList_eq
  · have htaken := hholds.taken n
    rw [htaken.popFront_eq_none_iff, htaken.length_eq, List.length_drop, hholds.length_eq,
      Nat.sub_eq_zero_iff_le]
  · rw [hholds.length_eq]
    exact hholds.clear_eq_taken
  · rw [← capacity_clear] at hi
    exact hholds.clear.slots_of_nil hi

def turning : List (Call Nat) :=
  [.pushFront 1, .pushFront 2, .popFront, .pushFront 3, .clear, .popFront, .clear, .pushFront 4,
    .pushFront 5, .popFront]

theorem session_eq_list_turning :
    let r := (session perform (empty 2) turning).2
    (empty 2).AllFit turning ∧ r.slots = #[none, some 4] ∧ r.head = 1 ∧
      session perform (empty 2) turning =
        ([none, none, some 2, none, none, none, none, none, none, some 5], r) ∧
      r.toList = [4] ∧ (r.pushFront 6).toList = [6, 4] ∧ r.popFront.1 = some 4 ∧
      r.clear = r.taken 1 ∧ r.clear.slots[0]? = some none := by
  have hfit : (empty 2).AllFit turning := by cbv
  have hslots : (session perform (empty 2) turning).2.slots = #[none, some 4] := by cbv
  have hhead : (session perform (empty 2) turning).2.head = 1 := by cbv
  have hlength : (session perform (empty 2) turning).2.length = 1 := by cbv
  obtain ⟨-, hanswers, hlist, hpush, ⟨hpop, -⟩, -, hclear, -, hnone⟩ :=
    session_eq_list 2 turning hfit
  have hlist : (session perform (empty 2) turning).2.toList = [4] := hlist
  rw [hlist] at hpush hpop
  rw [hlength] at hpush hclear
  exact ⟨hfit, hslots, hhead, hanswers, hlist, hpush 6 Nat.one_lt_two, hpop, hclear,
    hnone 0 Nat.two_pos⟩

end Munch.Ring
