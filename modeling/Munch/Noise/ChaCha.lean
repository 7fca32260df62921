import Munch.Noise

namespace Munch

/-- ChaCha with twelve rounds. Its key stream, in words of 32 bits, is the supply of random bits. -/
structure ChaCha where
  key : Vector UInt32 8
  counter : UInt64 := 0
  words : List UInt32 := []

namespace ChaCha

abbrev State := Vector UInt32 16

def rotateLeft (x n : UInt32) : UInt32 := (x <<< n) ||| (x >>> (32 - n))

def quarterRound (i j k l : Fin 16) (s : State) : State :=
  let a := s[i]
  let b := s[j]
  let c := s[k]
  let d := s[l]
  let a := a + b
  let d := rotateLeft (d ^^^ a) 16
  let c := c + d
  let b := rotateLeft (b ^^^ c) 12
  let a := a + b
  let d := rotateLeft (d ^^^ a) 8
  let c := c + d
  let b := rotateLeft (b ^^^ c) 7
  (((s.set i a).set j b).set k c).set l d

def doubleRound (s : State) : State :=
  let s := quarterRound 0 4 8 12 s
  let s := quarterRound 1 5 9 13 s
  let s := quarterRound 2 6 10 14 s
  let s := quarterRound 3 7 11 15 s
  let s := quarterRound 0 5 10 15 s
  let s := quarterRound 1 6 11 12 s
  let s := quarterRound 2 7 8 13 s
  quarterRound 3 4 9 14 s

/-- Four fixed words, the key, the block number and a stream number that is always zero. -/
def initial (key : Vector UInt32 8) (counter : UInt64) : State :=
  #v[0x61707865, 0x3320646e, 0x79622d32, 0x6b206574,
    key[0], key[1], key[2], key[3], key[4], key[5], key[6], key[7],
    counter.toUInt32, (counter >>> 32).toUInt32, 0, 0]

def block (key : Vector UInt32 8) (counter : UInt64) : State :=
  let s := initial key counter
  (Nat.repeat doubleRound 6 s).zipWith (· + ·) s

def word (g : ChaCha) : UInt32 × ChaCha :=
  match g.words with
  | w :: words => (w, { g with words })
  | [] =>
    let s := block g.key g.counter
    (s[0], { g with counter := g.counter + 1, words := s.toList.tail })

/-- Scales a word to the range below `bound`, and says whether it may stand: the words that would
favour some numbers over others may not. -/
def scale (bound : Nat) (w : UInt32) : Nat × Bool :=
  let p := w.toNat * bound
  (p / UInt32.size, p % UInt32.size < UInt32.size - UInt32.size % bound)

def drawWithin (bound : Nat) : Nat → ChaCha → Nat × ChaCha
  | 0, g =>
    let (w, g) := g.word
    ((scale bound w).1, g)
  | n + 1, g =>
    let (w, g) := g.word
    match scale bound w with
    | (v, true) => (v, g)
    | (_, false) => drawWithin bound n g

theorem scale_lt {bound : Nat} (h : 0 < bound) (w : UInt32) : (scale bound w).1 < bound := by
  have : w.toNat < UInt32.size := w.toNat_lt_size
  exact Nat.div_lt_of_lt_mul (Nat.mul_lt_mul_of_pos_right this h)

theorem drawWithin_lt {bound : Nat} (h : 0 < bound) (n : Nat) (g : ChaCha) :
    (drawWithin bound n g).1 < bound := by
  induction n generalizing g with
  | zero => exact scale_lt h _
  | succ n ih =>
    unfold drawWithin
    split
    next w g' _ =>
      split
      · next v hv => simpa [hv] using scale_lt h w
      · exact ih g'

instance : Generator ChaCha where
  draw bound := drawWithin bound 64
  draw_lt _ g h := drawWithin_lt h 64 g

/-- Spreads a seed over a key: each word is a rotated slice of a linear congruential state. -/
def keyWords : Nat → UInt64 → List UInt32
  | 0, _ => []
  | n + 1, state =>
    let state := state * 6364136223846793005 + 11634580027462260723
    let slice := (((state >>> 18) ^^^ state) >>> 27).toUInt32
    let turn := (state >>> 59).toUInt32
    ((slice >>> turn) ||| (slice <<< (32 - turn))) :: keyWords n state

theorem length_keyWords (n : Nat) (state : UInt64) : (keyWords n state).length = n := by
  induction n generalizing state with
  | zero => rfl
  | succ n ih => simp [keyWords, ih]

def ofSeed (seed : UInt64) : ChaCha :=
  { key := ⟨(keyWords 8 seed).toArray, by simp [length_keyWords]⟩ }

end ChaCha

def Noise.ofSeed (length : Nat) (seed : UInt64) : Noise ChaCha := .create length (.ofSeed seed)

end Munch
