namespace Munch

structure Ring (α : Type) where
  slots : Array (Option α)
  head : Nat
  length : Nat

namespace Ring

variable {α : Type}

def empty (capacity : Nat) : Ring α := ⟨.replicate capacity none, 0, 0⟩

def capacity (r : Ring α) : Nat := r.slots.size

def get? (r : Ring α) (i : Nat) : Option α :=
  (r.slots[(r.head + i) % r.capacity]?).join

def toList (r : Ring α) : List α := (List.range r.length).filterMap r.get?

def pushFront (r : Ring α) (a : α) : Ring α :=
  let head := (r.head + r.capacity - 1) % r.capacity
  ⟨r.slots.setIfInBounds head (some a), head, r.length + 1⟩

def popFront (r : Ring α) : Option α × Ring α :=
  if r.length = 0 then (none, r)
  else ((r.slots[r.head]?).join,
    ⟨r.slots.setIfInBounds r.head none, (r.head + 1) % r.capacity, r.length - 1⟩)

@[simp] theorem capacity_empty (n : Nat) : (empty n : Ring α).capacity = n := by
  simp [empty, capacity]

@[simp] theorem length_empty (n : Nat) : (empty n : Ring α).length = 0 := rfl

@[simp] theorem capacity_pushFront (r : Ring α) (a : α) :
    (r.pushFront a).capacity = r.capacity := by
  simp [pushFront, capacity]

@[simp] theorem length_pushFront (r : Ring α) (a : α) :
    (r.pushFront a).length = r.length + 1 := rfl

@[simp] theorem capacity_popFront (r : Ring α) : r.popFront.2.capacity = r.capacity := by
  unfold popFront
  split <;> simp [capacity]

@[simp] theorem length_popFront (r : Ring α) : r.popFront.2.length = r.length - 1 := by
  unfold popFront
  split <;> simp [*]

theorem length_pos_of_popFront {r : Ring α} {a : α} (h : r.popFront.1 = some a) :
    0 < r.length := by
  unfold popFront at h
  split at h
  · simp at h
  · omega

def clear (r : Ring α) : Ring α :=
  match _h : r.popFront.1 with
  | some _ => r.popFront.2.clear
  | none => r.popFront.2
termination_by r.length
decreasing_by
  have := length_pos_of_popFront _h
  simp only [length_popFront]
  omega

end Ring

end Munch
