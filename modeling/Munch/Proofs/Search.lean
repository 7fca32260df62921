import Mathlib.Data.List.Find
import Munch.Proofs.Channel
import Munch.Proofs.Lexing

namespace Munch

variable {σ ι : Type}

namespace Candidate

def after (us : List Char) (k : Candidate ι) : Option (Candidate ι) :=
  if us <+: k.alternative.literal then
    some { k with rest := k.alternative.literal.drop us.length }
  else none

theorem after_nil {k : Candidate ι} (h : k.rest = k.alternative.literal) :
    k.after [] = some k := by
  rw [after, if_pos List.nil_prefix, List.length_nil, List.drop_zero, ← h]

theorem after_append (us : List Char) (c : Char) (k : Candidate ι) :
    (k.after us).bind (·.advance? c) = k.after (us ++ [c]) := by
  by_cases hp : us <+: k.alternative.literal
  · obtain ⟨rest, hrest⟩ := hp
    rw [after, if_pos ⟨rest, hrest⟩, Option.bind_some, after, advance?, ← hrest]
    simp only [List.drop_left, List.prefix_append_right_inj, List.length_append,
      List.length_singleton]
    cases rest with
    | nil => simp
    | cons d rest =>
      by_cases h : d = c
      · simp [h]
      · simp [h, Ne.symm h]
  · rw [after, if_neg hp, after, if_neg fun h => hp ((List.prefix_append us [c]).trans h)]
    rfl

theorem advance?_of_isComplete {k : Candidate ι} (h : k.isComplete = true) (c : Char) :
    k.advance? c = none := by
  rw [isComplete, List.isEmpty_iff] at h
  rw [advance?, h]

theorem any_isComplete_after (us : List Char) (k : Candidate ι) :
    (k.after us).any isComplete = decide (k.alternative.literal = us) := by
  by_cases hp : us <+: k.alternative.literal
  · obtain ⟨rest, hrest⟩ := hp
    rw [after, if_pos ⟨rest, hrest⟩, Option.any_some, isComplete, ← hrest, List.drop_left]
    cases rest <;> simp
  · have hne : k.alternative.literal ≠ us := by
      intro h
      rw [h] at hp
      exact hp (List.prefix_refl us)
    rw [after, if_neg hp, Option.any_none, decide_eq_false hne]

end Candidate

namespace Search

def after (g : Grammar ι) (us : List Char) : Search ι := us.foldl advance (start g)

def reached (g : Grammar ι) (us : List Char) : List (Candidate ι) :=
  g.initial.filterMap (·.after us)

theorem after_append (g : Grammar ι) (us : List Char) (c : Char) :
    after g (us ++ [c]) = (after g us).advance c := by
  rw [after, List.foldl_append]
  rfl

theorem text_after (g : Grammar ι) (us : List Char) : (after g us).text = us.reverse := by
  induction us using List.reverseRecOn with
  | nil => rfl
  | append_singleton us c ih => rw [after_append, text_advance, ih, List.reverse_append]; rfl

theorem reached_nil (g : Grammar ι) : reached g [] = g.initial := by
  calc
    g.initial.filterMap (·.after []) = g.initial.filterMap some :=
      List.filterMap_congr fun k hk => Candidate.after_nil (Grammar.rest_eq hk)
    _ = g.initial := List.filterMap_some

theorem reached_append (g : Grammar ι) (us : List Char) (c : Char) :
    ((reached g us).filter (!·.isComplete)).filterMap (·.advance? c) = reached g (us ++ [c]) := by
  rw [reached, List.filterMap_filter, List.filterMap_filterMap, reached]
  apply List.filterMap_congr
  intro k _
  rw [← Candidate.after_append]
  congr 1
  funext j
  cases h : j.isComplete with
  | false => rfl
  | true => exact (Candidate.advance?_of_isComplete h c).symm

theorem viable_after (g : Grammar ι) (us : List Char) :
    (after g us).viable = (reached g us).filter (!·.isComplete) := by
  induction us using List.reverseRecOn with
  | nil =>
    rw [reached_nil]
    symm
    apply List.filter_eq_self.2
    intro k hk
    have hne := g.literal_ne_nil _ (Grammar.alternative_mem hk)
    rw [Candidate.isComplete, Grammar.rest_eq hk]
    simpa using hne
  | append_singleton us c ih => rw [after_append, advance, ih, reached_append]

theorem find?_isComplete_reached (g : Grammar ι) (us : List Char) :
    (reached g us).find? (·.isComplete) =
      (g.initial.find? (·.alternative.literal = us)).map ({ · with rest := [] }) := by
  rw [reached, List.find?_filterMap]
  simp only [Candidate.any_isComplete_after]
  cases hf : g.initial.find? (·.alternative.literal = us) with
  | none => rfl
  | some k =>
    have hk : k.alternative.literal = us := by simpa using List.find?_some hf
    rw [Option.bind_some, Candidate.after, if_pos (hk ▸ List.prefix_refl us), hk, List.drop_length]
    rfl

theorem find?_isPrefixOf_append (g : Grammar ι) (us : List Char) (c : Char) :
    g.initial.find? (·.alternative.literal.isPrefixOf (us ++ [c])) =
      (g.initial.find? (·.alternative.literal = us ++ [c])).or
        (g.initial.find? (·.alternative.literal.isPrefixOf us)) := by
  cases hf : g.initial.find? (·.alternative.literal = us ++ [c]) with
  | none =>
    rw [Option.none_or]
    apply List.find?_congr
    intro k hk
    have hne : k.alternative.literal ≠ us ++ [c] := by simpa using List.find?_eq_none.1 hf k hk
    rw [Bool.eq_iff_iff, List.isPrefixOf_iff_prefix, List.isPrefixOf_iff_prefix,
      List.prefix_concat_iff]
    exact or_iff_right hne
  | some k =>
    rw [Option.some_or]
    obtain ⟨hk, ks, ks', hi, hks⟩ := List.find?_eq_some_iff_append.1 hf
    have hk : k.alternative.literal = us ++ [c] := by simpa using hk
    refine List.find?_eq_some_iff_append.2
      ⟨List.isPrefixOf_iff_prefix.2 (hk ▸ List.prefix_refl _), ks, ks', hi, ?_⟩
    intro j hj
    have hne : j.alternative.literal ≠ us ++ [c] := by simpa using hks j hj
    have hsorted := g.initial_sorted
    rw [hi] at hsorted
    have hlen : k.alternative.length ≤ j.alternative.length :=
      (List.pairwise_append.1 hsorted).2.2 j hj k List.mem_cons_self
    rw [Bool.not_eq_true', Bool.eq_false_iff, ne_eq, List.isPrefixOf_iff_prefix]
    intro hp
    apply hne
    apply hp.eq_of_length_le
    rwa [Alternative.length, hk] at hlen

theorem best_after (g : Grammar ι) (us : List Char) :
    (after g us).best =
      (g.initial.find? (·.alternative.literal.isPrefixOf us)).map fun k =>
        ({ k with rest := [] }, k.alternative.literal.reverse) := by
  induction us using List.reverseRecOn with
  | nil =>
    have hnone : g.initial.find? (·.alternative.literal.isPrefixOf []) = none := by
      apply List.find?_eq_none.2
      intro k hk
      rw [List.isPrefixOf_iff_prefix, List.prefix_nil]
      exact g.literal_ne_nil _ (Grammar.alternative_mem hk)
    rw [hnone]
    rfl
  | append_singleton us c ih =>
    rw [after_append, advance, ih, viable_after, reached_append, find?_isComplete_reached,
      find?_isPrefixOf_append, text_after]
    cases hf : g.initial.find? (·.alternative.literal = us ++ [c]) with
    | none => rfl
    | some k =>
      have hk : k.alternative.literal = us ++ [c] := by simpa using List.find?_some hf
      simp [hk]

theorem verdict_after_nil (g : Grammar ι) : (after g []).verdict = none := rfl

theorem verdict_after (g : Grammar ι) {us : List Char} (h : us ≠ []) :
    (after g us).verdict = some (g.first us, (g.first us).text.length) := by
  cases us with
  | nil => exact absurd rfl h
  | cons c cs =>
    rw [verdict, best_after, text_after, Grammar.first, Grammar.lead?_eq_find?]
    cases g.initial.find? (·.alternative.literal.isPrefixOf (c :: cs)) with
    | none => simp [Outcome.text]
    | some k => simp [Outcome.text, Alternative.text]

theorem surplus_after (g : Grammar ι) (us : List Char) :
    (after g us).text.take ((after g us).text.length - (g.first us).text.length) =
      (us.drop (g.first us).text.length).reverse := by
  have hkept := (g.text_first_isPrefix us).length_le
  rw [text_after, List.take_reverse, List.length_reverse, Nat.sub_sub_self hkept]

def lookahead (s : Search ι) (r : List Char) : Nat :=
  Munch.lookahead (s.viable.map (·.rest)) r

def Ongoing (s : Search ι) : Prop := ∀ k ∈ s.viable, k.rest ≠ []

theorem Ongoing.start (g : Grammar ι) : (start g).Ongoing := by
  intro k hk
  rw [Grammar.rest_eq hk]
  exact g.literal_ne_nil _ (Grammar.alternative_mem hk)

theorem Ongoing.advance (s : Search ι) (c : Char) : (s.advance c).Ongoing := by
  intro k hk
  have hc := (List.mem_filter.1 hk).2
  simpa [Candidate.isComplete] using hc

theorem lookahead_le_iff {s : Search ι} {r : List Char} {n : Nat} :
    s.lookahead r ≤ n ↔ ∀ k ∈ s.viable, needed k.rest r ≤ n := by
  rw [lookahead, Munch.lookahead_le_iff, List.forall_mem_map]

theorem lookahead_start (g : Grammar ι) (r : List Char) :
    (start g).lookahead r = g.lookahead r := by
  apply eq_of_forall_ge_iff
  intro n
  rw [lookahead_le_iff, Grammar.lookahead_le_iff]
  constructor
  · intro h a ha
    obtain ⟨k, hk, rfl⟩ := Grammar.exists_mem_initial ha
    rw [← Grammar.rest_eq hk]
    exact h k hk
  · intro h k hk
    rw [Grammar.rest_eq hk]
    exact h _ (Grammar.alternative_mem hk)

theorem lookahead_of_viable_nil {s : Search ι} (h : s.viable = []) (r : List Char) :
    s.lookahead r = 0 := by
  rw [lookahead, h]
  rfl

theorem lookahead_pos {s : Search ι} (h : s.viable ≠ []) (hs : s.Ongoing) (r : List Char) :
    0 < s.lookahead r := by
  obtain ⟨k, hk⟩ := List.exists_mem_of_ne_nil _ h
  exact Nat.lt_of_lt_of_le (needed_pos (hs k hk) r) (lookahead_le_iff.1 (Nat.le_refl _) k hk)

theorem lookahead_nil {s : Search ι} (h : s.viable ≠ []) (hs : s.Ongoing) :
    s.lookahead [] = 1 := by
  apply Nat.le_antisymm
  · apply lookahead_le_iff.2
    intro k hk
    rw [needed_nil (hs k hk)]
  · exact lookahead_pos h hs []

theorem needed_rest_le_iff {k : Candidate ι} (h : k.rest ≠ []) (c : Char) (r : List Char)
    (n : Nat) :
    needed k.rest (c :: r) ≤ n + 1 ↔ ∀ j, k.advance? c = some j → needed j.rest r ≤ n := by
  cases hr : k.rest with
  | nil => exact absurd hr h
  | cons d l =>
    rw [needed_cons_cons, Candidate.advance?, hr]
    by_cases hd : d = c
    · simp [hd]
    · simp [hd]

theorem mem_viable_advance {s : Search ι} {c : Char} {j : Candidate ι} :
    j ∈ (s.advance c).viable ↔ (∃ k ∈ s.viable, k.advance? c = some j) ∧ j.rest ≠ [] := by
  simp [advance, Candidate.isComplete]

theorem lookahead_cons {s : Search ι} (h : s.viable ≠ []) (hs : s.Ongoing) (c : Char)
    (r : List Char) : s.lookahead (c :: r) = (s.advance c).lookahead r + 1 := by
  apply eq_of_forall_ge_iff
  intro n
  cases n with
  | zero =>
    have := lookahead_pos h hs (c :: r)
    omega
  | succ n =>
    rw [Nat.succ_le_succ_iff, lookahead_le_iff, lookahead_le_iff]
    constructor
    · intro hn j hj
      obtain ⟨⟨k, hk, ha⟩, -⟩ := mem_viable_advance.1 hj
      exact (needed_rest_le_iff (hs k hk) c r n).1 (hn k hk) j ha
    · intro hn k hk
      apply (needed_rest_le_iff (hs k hk) c r n).2
      intro j ha
      by_cases hj : j.rest = []
      · rw [hj]; exact Nat.zero_le n
      · exact hn j (mem_viable_advance.2 ⟨⟨k, hk, ha⟩, hj⟩)

theorem length_rest_start (g : Grammar ι) :
    ∀ k ∈ (start g).viable, k.rest.length ≤ g.maxLength := by
  intro k hk
  rw [Grammar.rest_eq hk]
  exact Grammar.length_le_maxLength (Grammar.alternative_mem hk)

theorem length_rest_advance {s : Search ι} {n : Nat} (h : ∀ k ∈ s.viable, k.rest.length ≤ n + 1)
    (c : Char) : ∀ k ∈ (s.advance c).viable, k.rest.length ≤ n := by
  intro j hj
  obtain ⟨⟨k, hk, ha⟩, -⟩ := mem_viable_advance.1 hj
  have hlt := Candidate.length_of_advance? ha
  have hle := h k hk
  omega

variable [Source σ Char]

theorem run_refines {m : Nat} {s : Search ι} {c : Channel σ Char} {v : Stack σ Char}
    {capacity n : Nat} (h : c.Refines v capacity n) (hs : s.Ongoing)
    (hm : ∀ k ∈ s.viable, k.rest.length ≤ m) :
    ∃ d, s.run c = ((v.scan (s.lookahead (v.scan m).units)).answer (·.foldl advance s), d) ∧
      d.Refines (v.scan (s.lookahead (v.scan m).units)).rest capacity
        ((v.scan (s.lookahead (v.scan m).units)).granted n) ∧
      ((v.scan (s.lookahead (v.scan m).units)).units.length = s.lookahead (v.scan m).units →
        c.Reads (v.scan (s.lookahead (v.scan m).units)).units d) := by
  -- each character read takes one off what every viable candidate has left, which `m` bounds
  induction m generalizing s c v n with
  | zero =>
    have hv : s.viable = [] := by
      apply List.eq_nil_iff_forall_not_mem.2
      intro k hk
      exact hs k hk (List.length_eq_zero_iff.1 (Nat.le_zero.1 (hm k hk)))
    rw [lookahead_of_viable_nil hv, run, dif_pos hv]
    exact ⟨c, rfl, h, fun _ => .nil⟩
  | succ m ih =>
    by_cases hv : s.viable = []
    · rw [lookahead_of_viable_nil hv, run, dif_pos hv]
      exact ⟨c, rfl, h, fun _ => .nil⟩
    obtain ⟨d, hd, hread⟩ := h.read
    rw [run, dif_neg hv, hd]
    cases hr : v.read with
    | mk r w =>
      rw [hr] at hread
      cases r with
      | error e =>
        rw [Stack.scan_of_error hr, lookahead_nil hv hs, Stack.scan_of_error hr]
        refine ⟨d, rfl, hread, fun hl => ?_⟩
        cases hl
      | ok unit =>
        cases unit with
        | none =>
          rw [Stack.scan_of_none hr, lookahead_nil hv hs, Stack.scan_of_none hr]
          refine ⟨d, rfl, hread, fun hl => ?_⟩
          cases hl
        | some u =>
          obtain ⟨d', hd', href, hreads⟩ := ih hread (.advance s u) (length_rest_advance hm u)
          rw [Stack.scan_of_unit hr, lookahead_cons hv hs, Stack.scan_of_unit hr]
          rw [Scan.answer_cons, Scan.granted_cons]
          refine ⟨d', hd', href, fun hl => ?_⟩
          exact .cons (by rw [hd, hr]) (hreads (Nat.succ.inj hl))

end Search

end Munch
