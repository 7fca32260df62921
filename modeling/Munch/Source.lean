import Munch.Error

namespace Munch

inductive Reply (υ : Type)
  | unit (u : υ)
  | ended
  | failed (cause : IoError)

class Source (σ : Type) (υ : outParam Type) where
  next : σ → Reply υ × σ
  close : σ → Option IoError × σ

/-- A source that can deliver only finitely many units: each one delivered lowers `remaining`. -/
class FiniteSource (σ : Type) (υ : outParam Type) extends Source σ υ where
  remaining : σ → Nat
  remaining_next_le (s : σ) : remaining (next s).2 ≤ remaining s
  remaining_next_lt (s : σ) (u : υ) : (next s).1 = .unit u → remaining (next s).2 < remaining s

/-- The units `s` delivers, in order, up to its first reply that is not a unit. -/
inductive Delivers {σ υ : Type} [Source σ υ] : σ → List υ → Reply υ → Prop
  | unit {s s' : σ} {u : υ} {us : List υ} {stop : Reply υ} :
      Source.next s = (.unit u, s') → Delivers s' us stop → Delivers s (u :: us) stop
  | ended {s s' : σ} : Source.next s = (.ended, s') → Delivers s [] .ended
  | failed {s s' : σ} {e : IoError} : Source.next s = (.failed e, s') → Delivers s [] (.failed e)

instance {υ : Type} : FiniteSource (List υ) υ where
  next
    | [] => (.ended, [])
    | u :: us => (.unit u, us)
  close us := (none, us)
  remaining := List.length
  remaining_next_le us := by cases us <;> simp
  remaining_next_lt us u := by cases us <;> simp

@[simp] theorem next_nil {υ : Type} : Source.next ([] : List υ) = (.ended, []) := rfl

@[simp] theorem next_cons {υ : Type} (u : υ) (us : List υ) :
    Source.next (u :: us) = (.unit u, us) := rfl

theorem delivers_list {υ : Type} (us : List υ) : Delivers us us .ended := by
  induction us with
  | nil => exact .ended rfl
  | cons u us ih => exact .unit rfl ih

namespace Source

def drainFrom {σ υ : Type} [FiniteSource σ υ] (us : List υ) (s : σ) :
    List υ × Option IoError × σ :=
  match _h : Source.next s with
  | (.unit u, t) => drainFrom (u :: us) t
  | (.ended, t) => (us.reverse, none, t)
  | (.failed e, t) => (us.reverse, some e, t)
termination_by FiniteSource.remaining s
decreasing_by
  have := FiniteSource.remaining_next_lt s u (by rw [_h])
  rwa [_h] at this

def drain {σ υ : Type} [FiniteSource σ υ] (s : σ) : List υ × Option IoError × σ := drainFrom [] s

end Source

end Munch
