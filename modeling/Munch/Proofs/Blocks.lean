import Munch.Proofs.Noise
import Munch.Proofs.Step

namespace Munch

structure Draw where
  bound : Nat
  number : Nat

structure Logged (γ : Type) where
  generator : γ
  draws : List Draw

instance {γ : Type} [Generator γ] : Generator (Logged γ) where
  draw bound g :=
    let (number, generator) := Generator.draw bound g.generator
    (number, ⟨generator, g.draws ++ [⟨bound, number⟩]⟩)
  draw_lt bound g h := Generator.draw_lt bound g.generator h

namespace Noise

inductive Block : List Draw → List Char → Prop
  | run {p : Nat} : p < 6 → Block [⟨30, p⟩] (['a', 'b', 'c', 'd', 'e', 'f'].take (p + 1))
  | letter {p i : Nat} {c : Char} : 6 ≤ p → p < 30 → i < 26 → c.toNat = 'a'.toNat + i →
      Block [⟨30, p⟩, ⟨26, i⟩] [c]

variable {γ : Type} [Generator γ]

def after (g : γ) : Nat → γ
  | 0 => g
  | k + 1 => (block (after g k)).2

def text (g : γ) (k : Nat) : List Char := (List.range k).flatMap fun j => (block (after g j)).1

def drawn (g : γ) : List Draw := (block (⟨g, []⟩ : Logged γ)).2.draws

theorem text_succ (g : γ) (k : Nat) : text g (k + 1) = text g k ++ (block (after g k)).1 := by
  rw [text, List.range_succ, List.flatMap_append, List.flatMap_singleton]
  rfl

theorem length_text_lt (g : γ) (k : Nat) : (text g k).length < (text g (k + 1)).length := by
  rw [text_succ, List.length_append]
  exact Nat.lt_add_of_pos_right (List.length_pos_iff.2 (block_ne_nil _))

theorem length_text_mono (g : γ) {j k : Nat} (h : j ≤ k) :
    (text g j).length ≤ (text g k).length := by
  induction h with
  | refl => exact Nat.le_refl _
  | step _ ih => exact Nat.le_trans ih (Nat.le_of_lt (length_text_lt g _))

theorem le_length_text (g : γ) (k : Nat) : k ≤ (text g k).length := by
  induction k with
  | zero => exact Nat.zero_le _
  | succ k ih => exact Nat.lt_of_le_of_lt ih (length_text_lt g k)

theorem text_isPrefix (g : γ) {j k : Nat} (h : j ≤ k) : text g j <+: text g k := by
  induction h with
  | refl => exact List.prefix_rfl
  | step _ ih =>
    rw [text_succ]
    exact ih.trans (List.prefix_append _ _)

def letter (g : γ) (i : Nat) : Char := (text g (i + 1)).get ⟨i, le_length_text g (i + 1)⟩

theorem getElem_text {g : γ} {i k : Nat} (h : i < (text g k).length) :
    (text g k)[i] = letter g i := by
  rcases Nat.le_total k (i + 1) with hle | hle
  · exact (text_isPrefix g hle).getElem h
  · exact ((text_isPrefix g hle).getElem (le_length_text g (i + 1))).symm

theorem text_eq_map (g : γ) (k : Nat) :
    text g k = (List.range (text g k).length).map (letter g) :=
  List.ext_getElem (by simp) fun i h _ => by
    rw [getElem_text h, List.getElem_map, List.getElem_range]

theorem block_drawn (g : γ) (ds : List Draw) :
    Block (drawn g) (block g).1 ∧
      block (⟨g, ds⟩ : Logged γ) = ((block g).1, ⟨(block g).2, ds ++ drawn g⟩) := by
  rcases Nat.lt_or_ge (Generator.draw 30 g).1 6 with h | h
  · have hlogged (ds : List Draw) : (Generator.draw 30 (⟨g, ds⟩ : Logged γ)).1 < 6 := h
    rw [drawn, block_of_lt h, block_of_lt (hlogged _), block_of_lt (hlogged _)]
    exact ⟨.run h, rfl⟩
  · have hlogged (ds : List Draw) : 6 ≤ (Generator.draw 30 (⟨g, ds⟩ : Logged γ)).1 := h
    rw [drawn, block_of_le h, block_of_le (hlogged _), block_of_le (hlogged _)]
    have hp : (Generator.draw 30 g).1 < 30 := Generator.draw_lt 30 g (by omega)
    have hi : (Generator.draw 26 (Generator.draw 30 g).2).1 < 26 :=
      Generator.draw_lt 26 _ (by omega)
    refine ⟨.letter h hp hi ?_, ?_⟩
    · have hchar : 'a'.toNat = 97 := rfl
      rw [Char.ofNat, dif_pos (.inl (by omega))]
      rfl
    · exact congrArg (fun ds => (_, Logged.mk _ ds)) (List.append_assoc ds _ _)

theorem after_logged (g : γ) (k : Nat) :
    after (⟨g, []⟩ : Logged γ) k =
      ⟨after g k, (List.range k).flatMap fun j => drawn (after g j)⟩ := by
  induction k with
  | zero => rfl
  | succ k ih =>
    rw [after, ih, (block_drawn _ _).2, List.range_succ, List.flatMap_append,
      List.flatMap_singleton]
    rfl

theorem text_logged (g : γ) (k : Nat) : text (⟨g, []⟩ : Logged γ) k = text g k := by
  apply List.flatMap_congr
  intro j _
  rw [after_logged, (block_drawn _ _).2]

theorem letter_logged (g : γ) (i : Nat) : letter (⟨g, []⟩ : Logged γ) i = letter g i :=
  List.get_of_eq (text_logged g (i + 1)) _

/-- `n` has delivered `i` letters of those that `g` stands for, and the last of its `k` blocks was
needed for them. -/
structure At (g : γ) (i k : Nat) (n : Noise γ) : Prop where
  isOpen : n.closed = false
  generator_eq : n.generator = after g k
  pending_eq : n.pending = (text g k).drop i
  le_length : i ≤ (text g k).length
  length_lt : ∀ j < k, (text g j).length < i

theorem At.create (length : Nat) (g : γ) : At g 0 0 (create length g) where
  isOpen := rfl
  generator_eq := rfl
  pending_eq := rfl
  le_length := Nat.le_refl _
  length_lt := nofun

variable {g : γ} {i k : Nat} {n : Noise γ}

theorem letter_of_drop {c : Char} {cs : List Char} (h : (text g k).drop i = c :: cs) :
    c = letter g i ∧ cs = (text g k).drop (i + 1) ∧ i < (text g k).length := by
  have hlt : i < (text g k).length := by
    refine Nat.lt_of_not_le fun hle => ?_
    rw [List.drop_eq_nil_of_le hle] at h
    cases h
  rw [List.drop_eq_getElem_cons hlt, getElem_text hlt] at h
  obtain ⟨rfl, rfl⟩ := List.cons.inj h
  exact ⟨rfl, rfl, hlt⟩

theorem At.next (h : At g i k n) {m : Nat} (hm : n.remaining = m + 1) :
    ∃ k' n', Noise.next n = (.unit (letter g i), n') ∧ At g (i + 1) k' n' ∧ n'.remaining = m := by
  cases hp : n.pending with
  | nil =>
    -- the blocks so far are delivered, so the letter is the first one of the next
    obtain ⟨c, cs, hblock⟩ := List.exists_cons_of_ne_nil (block_ne_nil n.generator)
    have hi : i = (text g k).length := by
      refine Nat.le_antisymm h.le_length (List.drop_eq_nil_iff.1 ?_)
      rw [← h.pending_eq, hp]
    have hrefill : n.refill.pending = c :: cs := by rw [refill_of_nil hp]; exact hblock
    have hdrop : (text g (k + 1)).drop i = c :: cs := by
      rw [text_succ, hi, List.drop_left, ← h.generator_eq, hblock]
    obtain ⟨hc, hcs, hlt⟩ := letter_of_drop hdrop
    refine ⟨k + 1, _, hc ▸ next_of_refill h.isOpen hm hrefill, ?_, rfl⟩
    rw [refill_of_nil hp]
    refine ⟨h.isOpen, ?_, hcs, hlt, fun j hj => ?_⟩
    · rw [after, ← h.generator_eq]
    · rw [hi]
      exact Nat.lt_succ_of_le (length_text_mono g (Nat.le_of_lt_succ hj))
  | cons c cs =>
    obtain ⟨hc, hcs, hlt⟩ := letter_of_drop (h.pending_eq.symm.trans hp)
    have hrefill : n.refill.pending = c :: cs := by rw [refill_of_cons hp]; exact hp
    refine ⟨k, _, hc ▸ next_of_refill h.isOpen hm hrefill, ?_, rfl⟩
    rw [refill_of_cons hp]
    exact ⟨h.isOpen, h.generator_eq, hcs, hlt, fun j hj => Nat.lt_succ_of_lt (h.length_lt j hj)⟩

def replies (g : γ) (i m calls : Nat) : List (Reply Char) :=
  (List.range' i (min calls m)).map (.unit <| letter g ·) ++ .replicate (calls - m) .ended

theorem replies_succ (g : γ) (i m calls : Nat) :
    replies g i (m + 1) (calls + 1) = .unit (letter g i) :: replies g (i + 1) m calls := by
  rw [replies, Nat.add_min_add_right, List.range'_succ, Nat.add_sub_add_right]
  rfl

theorem At.series (h : At g i k n) (calls : Nat) :
    (series Noise.next calls n).1 = replies g i n.remaining calls ∧
      ∃ k', At g (i + min calls n.remaining) k' (series Noise.next calls n).2 := by
  induction calls generalizing i k n with
  | zero =>
    rw [replies, Nat.zero_min, Nat.zero_sub]
    exact ⟨rfl, k, h⟩
  | succ calls ih =>
    cases hm : n.remaining with
    | zero =>
      rw [series_of_fixed (next_of_zero h.isOpen hm), replies, Nat.min_zero]
      exact ⟨rfl, k, h⟩
    | succ m =>
      obtain ⟨k', n', hnext, hat, rfl⟩ := h.next hm
      obtain ⟨hreplies, k'', hlast⟩ := ih hat
      rw [Munch.series, hnext, hreplies, replies_succ, Nat.add_min_add_right]
      refine ⟨rfl, k'', ?_⟩
      rwa [Nat.add_right_comm] at hlast

theorem At.delivers (h : At g i k n) :
    Delivers n ((List.range' i n.remaining).map (letter g)) .ended := by
  induction hm : n.remaining generalizing i k n with
  | zero => exact .ended (next_of_zero h.isOpen hm)
  | succ m ih =>
    obtain ⟨k', n', hnext, hat, hm'⟩ := h.next hm
    rw [List.range'_succ]
    exact .unit hnext (ih hat hm')

theorem fst_drain_create (length : Nat) (g : γ) :
    (Source.drain (create length g)).1 = (List.range length).map (letter g) := by
  obtain ⟨n, hdrain⟩ := Source.drain_of_delivers (At.create length g).delivers
  rw [hdrain, List.range_eq_range']
  rfl

/-- Whatever a generator draws, it stands for an endless sequence of blocks: one to six letters from
`a` on for a draw below six, and else one letter for the next draw. Noise of any length delivers as
many letters of it, and after that it only ends. The blocks drawn by then are no more than those
letters need. Shorter noise is the beginning of longer noise. -/
theorem letters_of_blocks (g : γ) :
    ∃ (blocks : Nat → List Draw × List Char) (letter : Nat → Char),
      let text (k : Nat) := (List.range k).flatMap fun j => (blocks j).2
      (∀ k, Block (blocks k).1 (blocks k).2) ∧
      (∀ k, text k = (List.range (text k).length).map letter ∧ k ≤ (text k).length) ∧
      (∀ length calls : Nat,
        let delivered := min calls length
        let run := series next calls (create length g)
        let logged := series next calls (create length (⟨g, []⟩ : Logged γ))
        run.1 = (List.range delivered).map (.unit <| letter ·) ++
          .replicate (calls - length) .ended ∧
        logged.1 = run.1 ∧
        ∃ k, logged.2.generator.draws = ((List.range k).flatMap fun j => (blocks j).1) ∧
          delivered ≤ (text k).length ∧ ∀ j < k, (text j).length < delivered) ∧
      ∀ length length', length ≤ length' →
        (Source.drain (create length g)).1 <+: (Source.drain (create length' g)).1 := by
  refine ⟨fun k => (drawn (after g k), (block (after g k)).1), letter g,
    fun k => (block_drawn (after g k) []).1, fun k => ⟨text_eq_map g k, le_length_text g k⟩,
    fun length calls => ?_, fun length length' hle => ?_⟩
  · obtain ⟨hlogged, k, hat⟩ := (At.create length (⟨g, []⟩ : Logged γ)).series calls
    have hrun := ((At.create length g).series calls).1
    have hreplies : replies (⟨g, []⟩ : Logged γ) 0 length calls = replies g 0 length calls := by
      simp only [replies, letter_logged]
    refine ⟨?_, hlogged.trans (hreplies.trans hrun.symm), k, ?_, ?_, fun j hj => ?_⟩
    · rw [hrun, replies, List.range_eq_range']
      rfl
    · rw [hat.generator_eq, after_logged]
    · have hle := hat.le_length
      rwa [text_logged, Nat.zero_add] at hle
    · have hlt := hat.length_lt j hj
      rwa [text_logged, Nat.zero_add] at hlt
  · rw [fst_drain_create, fst_drain_create, ← Nat.min_eq_left hle, ← List.take_range, List.map_take]
    exact List.take_prefix _ _

end Noise

end Munch
