import Mathlib.Data.List.MinMax
import Mathlib.Logic.Function.Iterate
import Munch.Lexer
import Munch.Proofs.Grammar

/-! The lexing of a text without any channel: at each place the longest literal that the text goes
on with, or one character where there is none. `lookahead` is how much of the text that takes. -/

namespace Munch

variable {ι : Type}

def common : List Char → List Char → Nat
  | c :: l, d :: r => if c = d then common l r + 1 else 0
  | _, _ => 0

def needed (l r : List Char) : Nat := min l.length (1 + common l r)

def lookahead (ls : List (List Char)) (r : List Char) : Nat :=
  (ls.map (needed · r)).foldr max 0

theorem common_le (l r : List Char) : common l r ≤ r.length := by
  induction l generalizing r with
  | nil => exact Nat.zero_le _
  | cons c l ih =>
    cases r with
    | nil => exact Nat.le_refl _
    | cons d r =>
      rw [common]
      split
      · exact Nat.succ_le_succ (ih r)
      · exact Nat.zero_le _

theorem common_of_isPrefix {l r : List Char} (h : l <+: r) : common l r = l.length := by
  obtain ⟨t, rfl⟩ := h
  induction l with
  | nil => cases t <;> rfl
  | cons c l ih => simp [common, ih]

theorem common_eq_length {l r : List Char} : common l r = r.length ↔ r <+: l := by
  induction l generalizing r with
  | nil =>
    cases r with
    | nil => simp [common]
    | cons d r => simp [common]
  | cons c l ih =>
    cases r with
    | nil => simp [common]
    | cons d r =>
      by_cases h : c = d
      · simp [common, h, ih, List.cons_prefix_cons]
      · simp [common, h, List.cons_prefix_cons, Ne.symm h]

theorem common_take (l r : List Char) {n : Nat} (h : l.length ≤ n) :
    common l (r.take n) = common l r := by
  induction l generalizing r n with
  | nil => cases r <;> cases n <;> rfl
  | cons c l ih =>
    obtain ⟨n, rfl⟩ := Nat.exists_eq_add_of_le' (Nat.zero_lt_of_lt h)
    cases r with
    | nil => rfl
    | cons d r => rw [List.take_succ_cons, common, common, ih r (Nat.le_of_succ_le_succ h)]

theorem needed_take (l r : List Char) {n : Nat} (h : l.length ≤ n) :
    needed l (r.take n) = needed l r := by
  rw [needed, needed, common_take l r h]

theorem needed_cons_nil (c : Char) (l : List Char) : needed (c :: l) [] = 1 := by
  have hc : common (c :: l) [] = 0 := rfl
  rw [needed, hc, List.length_cons]
  omega

theorem needed_nil {l : List Char} (h : l ≠ []) : needed l [] = 1 := by
  cases l with
  | nil => exact absurd rfl h
  | cons c l => exact needed_cons_nil c l

theorem needed_cons_cons (c d : Char) (l r : List Char) :
    needed (c :: l) (d :: r) = if c = d then needed l r + 1 else 1 := by
  rw [needed, common, List.length_cons]
  split
  · rw [needed]; omega
  · omega

theorem needed_append {l r : List Char} (h : needed l r ≤ r.length) (t : List Char) :
    needed l (r ++ t) = needed l r := by
  induction l generalizing r with
  | nil => simp [needed]
  | cons c l ih =>
    cases r with
    | nil =>
      rw [needed_cons_nil] at h
      cases h
    | cons d r =>
      rw [needed_cons_cons] at h
      rw [List.cons_append, needed_cons_cons, needed_cons_cons]
      by_cases hc : c = d
      · rw [if_pos hc, List.length_cons] at h
        rw [if_pos hc, if_pos hc, ih (Nat.le_of_succ_le_succ h)]
      · rw [if_neg hc, if_neg hc]

theorem needed_of_isPrefix {l r : List Char} (h : l <+: r) : needed l r = l.length := by
  rw [needed, common_of_isPrefix h]
  omega

theorem needed_pos {l : List Char} (h : l ≠ []) (r : List Char) : 0 < needed l r := by
  have hl := List.length_pos_iff.2 h
  rw [needed]
  omega

theorem take_needed {l r : List Char} : r.take (needed l r) = l ↔ l <+: r := by
  constructor
  · intro h
    rw [← h]
    exact List.take_prefix _ _
  · intro h
    rw [needed_of_isPrefix h]
    exact (List.prefix_iff_eq_take.1 h).symm

theorem lookahead_le_iff {ls : List (List Char)} {r : List Char} {n : Nat} :
    lookahead ls r ≤ n ↔ ∀ l ∈ ls, needed l r ≤ n := by
  induction ls with
  | nil => simp [lookahead]
  | cons l ls ih =>
    rw [List.forall_mem_cons, ← ih]
    simp only [lookahead, List.map_cons, List.foldr_cons, Nat.max_le]

theorem needed_le_lookahead {ls : List (List Char)} {l : List Char} (h : l ∈ ls) (r : List Char) :
    needed l r ≤ lookahead ls r := lookahead_le_iff.1 (Nat.le_refl _) l h

def Outcome.text : Outcome ι → List Char
  | .matched t => t.text.toList
  | .skipped c => [c]
  | .ended => []

namespace Grammar

def longest? (g : Grammar ι) (r : List Char) : Option (List Char) :=
  ((g.alternatives.map (·.literal)).filter (·.isPrefixOf r)).argmax List.length

def lead? (g : Grammar ι) (r : List Char) : Option (Alternative ι) :=
  (g.longest? r).bind fun l => g.alternatives.find? (·.literal = l)

def first (g : Grammar ι) : List Char → Outcome ι
  | [] => .ended
  | c :: cs =>
    match g.lead? (c :: cs) with
    | some a => .matched ⟨a.text, a.id⟩
    | none => .skipped c

def rest (g : Grammar ι) (r : List Char) : List Char := r.drop (g.first r).text.length

def lexing (g : Grammar ι) : Nat → List Char → List (Outcome ι)
  | 0, _ => []
  | n + 1, r => g.first r :: g.lexing n (g.rest r)

def Undecided (g : Grammar ι) (r : List Char) : Prop :=
  ∃ a ∈ g.alternatives, r <+: a.literal ∧ r ≠ a.literal

instance (g : Grammar ι) (r : List Char) : Decidable (g.Undecided r) :=
  inferInstanceAs (Decidable (∃ a ∈ g.alternatives, r <+: a.literal ∧ r ≠ a.literal))

def lookahead (g : Grammar ι) (r : List Char) : Nat :=
  Munch.lookahead (g.alternatives.map (·.literal)) r

variable {g : Grammar ι} {r : List Char}

theorem needed_le (a : Alternative ι) (h : a ∈ g.alternatives) (r : List Char) :
    needed a.literal r ≤ g.lookahead r :=
  needed_le_lookahead (List.mem_map_of_mem h) r

theorem lookahead_le_iff {n : Nat} :
    g.lookahead r ≤ n ↔ ∀ a ∈ g.alternatives, needed a.literal r ≤ n := by
  rw [lookahead, Munch.lookahead_le_iff]
  simp only [List.mem_map, forall_exists_index, and_imp, forall_apply_eq_imp_iff₂]

theorem lookahead_le_maxLength (g : Grammar ι) (r : List Char) : g.lookahead r ≤ g.maxLength :=
  lookahead_le_iff.2 fun _ ha => Nat.le_trans (Nat.min_le_left _ _) (length_le_maxLength ha)

theorem lookahead_pos (g : Grammar ι) (r : List Char) : 0 < g.lookahead r := by
  obtain ⟨a, ha⟩ := List.exists_mem_of_ne_nil _ g.alternatives_ne_nil
  exact Nat.lt_of_lt_of_le (needed_pos (g.literal_ne_nil a ha) r) (needed_le a ha r)

theorem lookahead_take {n : Nat} (h : g.maxLength ≤ n) :
    g.lookahead (r.take n) = g.lookahead r := by
  apply Nat.le_antisymm
  · apply lookahead_le_iff.2
    intro a ha
    rw [needed_take _ _ (Nat.le_trans (length_le_maxLength ha) h)]
    exact needed_le a ha r
  · apply lookahead_le_iff.2
    intro a ha
    rw [← needed_take _ r (Nat.le_trans (length_le_maxLength ha) h)]
    exact needed_le a ha _

theorem lookahead_le_length (h : ¬ g.Undecided r) : g.lookahead r ≤ r.length := by
  apply lookahead_le_iff.2
  intro a ha
  rw [needed]
  rcases Nat.lt_or_eq_of_le (common_le a.literal r) with hlt | heq
  · omega
  · have hp := common_eq_length.1 heq
    have heq : r = a.literal := Classical.byContradiction fun hne => h ⟨a, ha, hp, hne⟩
    rw [← heq]
    exact Nat.min_le_left _ _

theorem lookahead_le_succ (g : Grammar ι) (r : List Char) : g.lookahead r ≤ r.length + 1 := by
  apply lookahead_le_iff.2
  intro a _
  have := common_le a.literal r
  rw [needed]
  omega

theorem lookahead_of_undecided (h : g.Undecided r) : g.lookahead r = r.length + 1 := by
  apply Nat.le_antisymm
  · exact g.lookahead_le_succ r
  · obtain ⟨a, ha, hp, hne⟩ := h
    have hle := needed_le a ha r
    have hlen : r.length < a.literal.length := by
      rcases Nat.lt_or_eq_of_le hp.length_le with hlt | heq
      · exact hlt
      · exact absurd (hp.eq_of_length heq) hne
    rw [needed, common_eq_length.2 hp] at hle
    omega

theorem lead?_congr {r' : List Char}
    (h : ∀ a ∈ g.alternatives, a.literal <+: r ↔ a.literal <+: r') : g.lead? r = g.lead? r' := by
  suffices heq : g.longest? r = g.longest? r' by rw [lead?, heq, lead?]
  rw [longest?, longest?]
  apply congrArg (List.argmax List.length)
  apply List.filter_congr
  intro l hl
  obtain ⟨a, ha, rfl⟩ := List.mem_map.1 hl
  rw [Bool.eq_iff_iff, List.isPrefixOf_iff_prefix, List.isPrefixOf_iff_prefix]
  exact h a ha

theorem longest?_eq_some_iff {l : List Char} :
    g.longest? r = some l ↔
      (∃ a ∈ g.alternatives, a.literal = l) ∧ l <+: r ∧
        ∀ a ∈ g.alternatives, a.literal <+: r → a.literal.length ≤ l.length := by
  rw [longest?, List.argmax_eq_some_iff]
  simp only [List.mem_filter, List.mem_map, List.isPrefixOf_iff_prefix]
  constructor
  · rintro ⟨⟨hl, hp⟩, hmax, -⟩
    exact ⟨hl, hp, fun a ha hpa => hmax a.literal ⟨⟨a, ha, rfl⟩, hpa⟩⟩
  · rintro ⟨hl, hp, hmax⟩
    refine ⟨⟨hl, hp⟩, ?_, ?_⟩
    · rintro m ⟨⟨a, ha, rfl⟩, hpa⟩
      exact hmax a ha hpa
    · -- another literal as long as this one is this one
      rintro m ⟨⟨a, ha, rfl⟩, hpa⟩ hle
      have heq : a.literal.length = l.length := Nat.le_antisymm (hmax a ha hpa) hle
      rw [(List.prefix_of_prefix_length_le hpa hp heq.le).eq_of_length heq]

theorem longest?_eq_none_iff : g.longest? r = none ↔ ∀ a ∈ g.alternatives, ¬ a.literal <+: r := by
  rw [longest?, List.argmax_eq_none, List.filter_eq_nil_iff, List.forall_mem_map]
  simp only [List.isPrefixOf_iff_prefix]

theorem lead?_of_longest? {l : List Char} (h : g.longest? r = some l) :
    ∃ a ∈ g.alternatives, g.lead? r = some a ∧ a.literal = l := by
  obtain ⟨⟨b, hb, hl⟩, -⟩ := longest?_eq_some_iff.1 h
  rw [lead?, h, Option.bind_some]
  cases hf : g.alternatives.find? (·.literal = l) with
  | none => exact absurd (decide_eq_true hl) (List.find?_eq_none.1 hf b hb)
  | some a => exact ⟨a, List.mem_of_find?_eq_some hf, rfl, by simpa using List.find?_some hf⟩

theorem lead?_eq_none_iff : g.lead? r = none ↔ ∀ a ∈ g.alternatives, ¬ a.literal <+: r := by
  rw [← longest?_eq_none_iff]
  cases hl : g.longest? r with
  | none => simp [lead?, hl]
  | some l =>
    obtain ⟨a, -, ha, -⟩ := lead?_of_longest? hl
    simp [ha]

theorem literal_prefix_of_lead? {a : Alternative ι} (h : g.lead? r = some a) :
    a ∈ g.alternatives ∧ a.literal <+: r := by
  cases hl : g.longest? r with
  | none => rw [lead?, hl] at h; cases h
  | some l =>
    obtain ⟨b, hb, hlead, rfl⟩ := lead?_of_longest? hl
    rw [h] at hlead
    cases hlead
    exact ⟨hb, (longest?_eq_some_iff.1 hl).2.1⟩

theorem lead?_eq_find? (g : Grammar ι) (r : List Char) :
    g.lead? r =
      (g.initial.find? (·.alternative.literal.isPrefixOf r)).map (·.alternative) := by
  cases hf : g.initial.find? (·.alternative.literal.isPrefixOf r) with
  | none =>
    rw [Option.map_none, lead?_eq_none_iff]
    intro a ha hp
    obtain ⟨k, hk, rfl⟩ := exists_mem_initial ha
    exact List.find?_eq_none.1 hf k hk (List.isPrefixOf_iff_prefix.2 hp)
  | some k =>
    have hp : k.alternative.literal.isPrefixOf r = true := by simpa using List.find?_some hf
    have hlongest : g.longest? r = some k.alternative.literal := by
      refine longest?_eq_some_iff.2 ⟨⟨_, alternative_mem (List.mem_of_find?_eq_some hf), rfl⟩,
        List.isPrefixOf_iff_prefix.1 hp, ?_⟩
      intro a ha hpa
      obtain ⟨j, hj, rfl⟩ := exists_mem_initial ha
      exact length_le_of_find? hf hj (List.isPrefixOf_iff_prefix.2 hpa)
    rw [lead?, hlongest]
    exact find?_literal_of_find? hf fun j hj => by rw [hj, hp]

theorem first_congr {r' : List Char} (hhead : r.head? = r'.head?)
    (h : ∀ a ∈ g.alternatives, a.literal <+: r ↔ a.literal <+: r') : g.first r = g.first r' := by
  have hlead := lead?_congr h
  cases r with
  | nil =>
    cases r' with
    | nil => rfl
    | cons c' r' => cases hhead
  | cons c r =>
    cases r' with
    | nil => cases hhead
    | cons c' r' =>
      cases hhead
      rw [first, first, hlead]

theorem first_take {n : Nat} (h : g.maxLength ≤ n) : g.first (r.take n) = g.first r := by
  apply first_congr
  · obtain ⟨n, rfl⟩ := Nat.exists_eq_add_of_le' (Nat.lt_of_lt_of_le g.maxLength_pos h)
    cases r <;> rfl
  · intro a ha
    rw [List.prefix_take_iff]
    exact and_iff_left (Nat.le_trans (length_le_maxLength ha) h)

theorem first_take_lookahead (g : Grammar ι) (r : List Char) :
    g.first (r.take (g.lookahead r)) = g.first r := by
  apply first_congr
  · obtain ⟨n, hn⟩ := Nat.exists_eq_add_of_le' (g.lookahead_pos r)
    rw [hn]
    cases r <;> rfl
  · intro a ha
    rw [List.prefix_take_iff]
    refine and_iff_left_of_imp fun hp => ?_
    rw [← needed_of_isPrefix hp]
    exact needed_le a ha r

theorem lookahead_append (h : g.lookahead r ≤ r.length) (t : List Char) :
    g.lookahead (r ++ t) = g.lookahead r := by
  apply eq_of_forall_ge_iff
  intro n
  rw [lookahead_le_iff, lookahead_le_iff]
  apply forall₂_congr
  intro a ha
  rw [needed_append (Nat.le_trans (needed_le a ha r) h)]

theorem first_append (h : g.lookahead r ≤ r.length) (t : List Char) :
    g.first (r ++ t) = g.first r := by
  rw [← first_take_lookahead, lookahead_append h, List.take_append_of_le_length h,
    first_take_lookahead]

theorem text_first_isPrefix (g : Grammar ι) (r : List Char) : (g.first r).text <+: r := by
  cases r with
  | nil => exact List.nil_prefix
  | cons c cs =>
    rw [first]
    split
    · next a ha =>
      rw [Outcome.text, Alternative.text, String.toList_ofList]
      exact (literal_prefix_of_lead? ha).2
    · exact ⟨cs, rfl⟩

theorem text_first_append_rest (g : Grammar ι) (r : List Char) :
    (g.first r).text ++ g.rest r = r :=
  List.prefix_iff_eq_append.1 (g.text_first_isPrefix r)

theorem length_rest (g : Grammar ι) (r : List Char) :
    (g.rest r).length = r.length - (g.first r).text.length := List.length_drop

theorem length_text_first_le (g : Grammar ι) (r : List Char) :
    (g.first r).text.length ≤ (r.take (g.lookahead r)).length := by
  have hp := (g.text_first_isPrefix (r.take (g.lookahead r))).length_le
  rwa [first_take_lookahead] at hp

theorem text_first_ne_nil (h : r ≠ []) : (g.first r).text ≠ [] := by
  cases r with
  | nil => exact absurd rfl h
  | cons c cs =>
    rw [first]
    split
    · next a ha =>
      rw [Outcome.text, Alternative.text, String.toList_ofList]
      exact g.literal_ne_nil a (literal_prefix_of_lead? ha).1
    · exact List.cons_ne_nil _ _

theorem first_eq_ended_iff : g.first r = .ended ↔ r = [] := by
  constructor
  · intro h
    by_contra hr
    exact g.text_first_ne_nil hr (by rw [h]; rfl)
  · rintro rfl
    rfl

theorem length_rest_lt (h : r ≠ []) : (g.rest r).length < r.length := by
  have htext := List.length_pos_iff.2 (g.text_first_ne_nil h)
  have hr := List.length_pos_iff.2 h
  rw [length_rest]
  omega

theorem undecided_nil (g : Grammar ι) : g.Undecided [] := by
  obtain ⟨a, ha⟩ := List.exists_mem_of_ne_nil _ g.alternatives_ne_nil
  exact ⟨a, ha, List.nil_prefix, (g.literal_ne_nil a ha).symm⟩

theorem length_lt_of_undecided (h : g.Undecided r) : r.length < g.maxLength := by
  have hle := g.lookahead_le_maxLength r
  rwa [lookahead_of_undecided h] at hle

theorem exists_rest {P : List Char → Prop} (hnil : P []) (g : Grammar ι) (r : List Char) :
    ∃ n, (∀ m < n, ¬ P (g.rest^[m] r)) ∧ P (g.rest^[n] r) := by
  -- each outcome takes some text
  induction hl : r.length using Nat.strong_induction_on generalizing r with
  | _ l ih =>
    by_cases hp : P r
    · exact ⟨0, nofun, hp⟩
    · have hr : r ≠ [] := by
        rintro rfl
        exact hp hnil
      obtain ⟨n, hn, hlast⟩ := ih _ (hl ▸ length_rest_lt hr) (g.rest r) rfl
      refine ⟨n + 1, ?_, hlast⟩
      intro m hm
      cases m with
      | zero => exact hp
      | succ m => exact hn m (Nat.lt_of_succ_lt_succ hm)

theorem exists_undecided (g : Grammar ι) (r : List Char) :
    ∃ n, (∀ m < n, ¬ g.Undecided (g.rest^[m] r)) ∧ g.Undecided (g.rest^[n] r) :=
  exists_rest g.undecided_nil g r

theorem texts_append_rest (g : Grammar ι) (n : Nat) (r : List Char) :
    (g.lexing n r).flatMap Outcome.text ++ g.rest^[n] r = r := by
  induction n generalizing r with
  | zero => rfl
  | succ n ih =>
    rw [lexing, List.flatMap_cons, List.append_assoc, Function.iterate_succ_apply, ih,
      text_first_append_rest]

end Grammar

end Munch
