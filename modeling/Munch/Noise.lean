import Munch.Source

namespace Munch

class Generator (γ : Type) where
  draw : Nat → γ → Nat × γ
  draw_lt (bound : Nat) (g : γ) : 0 < bound → (draw bound g).1 < bound

/-- The first `remaining` letters of an endless stream of blocks. A block is made when the one
before it is used up. -/
structure Noise (γ : Type) where
  generator : γ
  remaining : Nat
  pending : List Char := []
  closed : Bool := false

namespace Noise

variable {γ : Type}

def create (length : Nat) (generator : γ) : Noise γ := { generator, remaining := length }

variable [Generator γ]

def block (g : γ) : List Char × γ :=
  let (pick, g) := Generator.draw 30 g
  if pick < 6 then (['a', 'b', 'c', 'd', 'e', 'f'].take (pick + 1), g)
  else
    let (letter, g) := Generator.draw 26 g
    ([.ofNat ('a'.toNat + letter)], g)

def refill (n : Noise γ) : Noise γ :=
  match n.pending with
  | [] =>
    let (pending, generator) := block n.generator
    { n with pending, generator }
  | _ => n

@[simp] theorem remaining_refill (n : Noise γ) : n.refill.remaining = n.remaining := by
  unfold refill
  split <;> rfl

def next (n : Noise γ) : Reply Char × Noise γ :=
  if n.closed then (.failed ⟨.other, "closed"⟩, n)
  else if n.remaining = 0 then (.ended, n)
  else
    let n := n.refill
    let m := { n with remaining := n.remaining - 1, pending := n.pending.tail }
    match n.pending with
    | c :: _ => (.unit c, m)
    | [] => (.ended, m)

instance : FiniteSource (Noise γ) Char where
  next := next
  close n := (none, { n with closed := true })
  remaining n := n.remaining
  remaining_next_le n := by
    simp only [next]
    repeat' split
    all_goals simp
  remaining_next_lt n c := by
    simp only [next]
    repeat' split
    all_goals simp
    omega

end Noise

end Munch
