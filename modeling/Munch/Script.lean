import Munch.Source

namespace Munch

inductive Script.Step
  | units (us : List Char)
  | failure (cause : IoError)
  | ended
  deriving DecidableEq

/-- It goes on after an end or a failure, and so shows what a caller does with these. -/
structure Script where
  units : List Char := []
  steps : List Script.Step
  closeFault : Option IoError := none
  calls : Nat := 0
  closes : Nat := 0

namespace Script

def play : List Step → Reply Char × List Char × List Step
  | [] => (.ended, [], [])
  | .units [] :: steps => play steps
  | .units (c :: cs) :: steps => (.unit c, cs, steps)
  | .failure e :: steps => (.failed e, [], steps)
  | .ended :: steps => (.ended, [], steps)

def next (s : Script) : Reply Char × Script :=
  let (reply, units, steps) := play (.units s.units :: s.steps)
  (reply, { s with units, steps, calls := s.calls + 1 })

def Step.size : Step → Nat
  | .units us => us.length
  | _ => 0

def total : List Step → Nat
  | [] => 0
  | s :: ss => s.size + total ss

def remaining (s : Script) : Nat := s.units.length + total s.steps

theorem remaining_play (steps : List Step) :
    (play steps).2.1.length + total (play steps).2.2 ≤ total steps ∧
      ∀ c, (play steps).1 = .unit c →
        (play steps).2.1.length + total (play steps).2.2 < total steps := by
  fun_induction play steps with
  | case1 => simp [total]
  | case2 steps ih => simpa [total, Step.size] using ih
  | case3 => simp [total, Step.size]
  | case4 => simp [total, Step.size]
  | case5 => simp [total, Step.size]

instance : FiniteSource Script Char where
  next := next
  close s := (s.closeFault, { s with closes := s.closes + 1 })
  remaining := remaining
  remaining_next_le s := (remaining_play (.units s.units :: s.steps)).1
  remaining_next_lt s := (remaining_play (.units s.units :: s.steps)).2

end Script

end Munch
