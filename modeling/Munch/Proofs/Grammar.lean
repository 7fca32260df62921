import Mathlib.Data.List.Basic
import Munch.Grammar

namespace Munch

section Stable

variable {α : Type} {le : α → α → Bool}

theorem filter_mergeSort (htrans : ∀ a b c, le a b = true → le b c = true → le a c = true)
    (htotal : ∀ a b, (le a b || le b a) = true) {p : α → Bool}
    (hp : ∀ a b, p a = true → p b = true → le a b = true) (as : List α) :
    (as.mergeSort le).filter p = as.filter p := by
  have hsorted : (as.filter p).Pairwise (le · · = true) :=
    List.pairwise_of_forall_mem_list fun a ha b hb =>
      hp a b (List.mem_filter.1 ha).2 (List.mem_filter.1 hb).2
  have hsub := (List.sublist_mergeSort htrans htotal hsorted List.filter_sublist).filter p
  rw [List.filter_filter] at hsub
  simp only [Bool.and_self] at hsub
  have hperm := (List.mergeSort_perm as le).filter p
  exact (hsub.eq_of_length hperm.length_eq.symm).symm

theorem pairwise_mergeSort_of_pairwise
    (htrans : ∀ a b c, le a b = true → le b c = true → le a c = true)
    (htotal : ∀ a b, (le a b || le b a) = true) {as : List α} {r : α → α → Prop}
    (h : as.Pairwise r) :
    (as.mergeSort le).Pairwise fun a b => le a b = true ∧ (le b a = true → r a b) := by
  refine (List.pairwise_mergeSort htrans htotal as).and (List.pairwise_iff_forall_sublist.2 ?_)
  intro a b hsub hba
  have hab := List.pairwise_iff_forall_sublist.1 (List.pairwise_mergeSort htrans htotal as) hsub
  -- those that tie with `a`
  have hties : ∀ c d, (le a c && le c a) = true → (le a d && le d a) = true → le c d = true := by
    simp only [Bool.and_eq_true]
    exact fun c d hc hd => htrans c a d hc.2 hd.1
  have haa : le a a = true := htrans a b a hab hba
  have hfilter := hsub.filter fun c => le a c && le c a
  rw [filter_mergeSort htrans htotal hties, List.filter_cons_of_pos (by simp [haa]),
    List.filter_cons_of_pos (by simp [hab, hba]), List.filter_nil] at hfilter
  exact List.pairwise_iff_forall_sublist.1 h (hfilter.trans List.filter_sublist)

end Stable

variable {ι : Type}

namespace Candidate

theorem longer_trans (a b c : Candidate ι) :
    decide (b.alternative.length ≤ a.alternative.length) = true →
    decide (c.alternative.length ≤ b.alternative.length) = true →
    decide (c.alternative.length ≤ a.alternative.length) = true := by
  simp only [decide_eq_true_eq]
  intro hab hbc
  exact Nat.le_trans hbc hab

theorem longer_total (a b : Candidate ι) :
    (decide (b.alternative.length ≤ a.alternative.length) ||
      decide (a.alternative.length ≤ b.alternative.length)) = true := by
  simp only [Bool.or_eq_true, decide_eq_true_eq]
  exact Nat.le_total _ _

end Candidate

theorem mem_candidates {as : List (Alternative ι)} {k : Candidate ι} :
    k ∈ candidates as ↔
      ∃ i, as[i]? = some k.alternative ∧ k = ⟨i, k.alternative, k.alternative.literal⟩ := by
  rw [candidates, List.mem_mergeSort, List.mem_map]
  constructor
  · rintro ⟨⟨a, i⟩, ha, rfl⟩
    exact ⟨i, List.mem_zipIdx_iff_getElem?.1 ha, rfl⟩
  · rintro ⟨i, hi, hk⟩
    exact ⟨(k.alternative, i), List.mem_zipIdx_iff_getElem?.2 hi, hk.symm⟩

theorem candidates_sorted (as : List (Alternative ι)) :
    (candidates as).Pairwise fun j k => k.alternative.length ≤ j.alternative.length := by
  rw [candidates]
  simpa only [decide_eq_true_eq] using
    List.pairwise_mergeSort Candidate.longer_trans Candidate.longer_total _

theorem filter_candidates (as : List (Alternative ι)) (l : List Char) :
    (candidates as).filter (·.alternative.literal = l) =
      (as.zipIdx.map fun (a, i) => (⟨i, a, a.literal⟩ : Candidate ι)).filter
        (·.alternative.literal = l) := by
  rw [candidates, filter_mergeSort Candidate.longer_trans Candidate.longer_total]
  intro j k hj hk
  rw [decide_eq_true_eq] at hj hk ⊢
  exact Nat.le_of_eq (congrArg List.length (hk.trans hj.symm))

theorem find?_candidates_zipIdx (as : List (Alternative ι)) (l : List Char) :
    (candidates as).find? (·.alternative.literal = l) =
      (as.zipIdx.find? (·.1.literal = l)).map fun (a, i) => ⟨i, a, a.literal⟩ := by
  rw [← List.head?_filter, filter_candidates, List.head?_filter, List.find?_map]
  rfl

theorem find?_candidates (as : List (Alternative ι)) (l : List Char) :
    ((candidates as).find? (·.alternative.literal = l)).map (·.alternative) =
      as.find? (·.literal = l) := by
  rw [find?_candidates_zipIdx, Option.map_map]
  have hfst : as = as.zipIdx.map Prod.fst := by rw [List.zipIdx_map_fst]
  conv => rhs; rw [hfst, List.find?_map]
  rfl

namespace Grammar

theorem mem_initial {g : Grammar ι} {k : Candidate ι} :
    k ∈ g.initial ↔
      ∃ i, g.alternatives[i]? = some k.alternative ∧
        k = ⟨i, k.alternative, k.alternative.literal⟩ := by
  rw [g.initial_eq, mem_candidates]

theorem alternative_mem {g : Grammar ι} {k : Candidate ι} (h : k ∈ g.initial) :
    k.alternative ∈ g.alternatives := by
  obtain ⟨i, hi, -⟩ := mem_initial.1 h
  exact List.mem_of_getElem? hi

theorem rest_eq {g : Grammar ι} {k : Candidate ι} (h : k ∈ g.initial) :
    k.rest = k.alternative.literal := by
  obtain ⟨i, -, hk⟩ := mem_initial.1 h
  rw [hk]

theorem exists_mem_initial {g : Grammar ι} {a : Alternative ι} (h : a ∈ g.alternatives) :
    ∃ k ∈ g.initial, k.alternative = a := by
  obtain ⟨i, hi⟩ := List.getElem?_of_mem h
  exact ⟨⟨i, a, a.literal⟩, mem_initial.2 ⟨i, hi, rfl⟩, rfl⟩

theorem initial_sorted (g : Grammar ι) :
    g.initial.Pairwise fun j k => k.alternative.length ≤ j.alternative.length := by
  rw [g.initial_eq]
  exact candidates_sorted g.alternatives

theorem length_le_of_find? {g : Grammar ι} {p : Candidate ι → Bool} {j k : Candidate ι}
    (h : g.initial.find? p = some k) (hj : j ∈ g.initial) (hp : p j = true) :
    j.alternative.length ≤ k.alternative.length := by
  obtain ⟨-, ks, ks', hi, hks⟩ := List.find?_eq_some_iff_append.1 h
  have hsorted := g.initial_sorted
  rw [hi] at hj hsorted
  rcases List.mem_append.1 hj with hj | hj
  · have hno := hks j hj
    rw [hp] at hno
    cases hno
  · rcases List.mem_cons.1 hj with rfl | hj
    · exact Nat.le_refl _
    · exact List.rel_of_pairwise_cons (List.pairwise_append.1 hsorted).2.1 hj

theorem find?_initial_of_find? {g : Grammar ι} {p : Candidate ι → Bool} {k : Candidate ι}
    (h : g.initial.find? p = some k)
    (hp : ∀ j : Candidate ι, j.alternative.literal = k.alternative.literal → p j = true) :
    g.initial.find? (·.alternative.literal = k.alternative.literal) = some k := by
  obtain ⟨-, ks, ks', hi, hks⟩ := List.find?_eq_some_iff_append.1 h
  refine List.find?_eq_some_iff_append.2 ⟨decide_eq_true rfl, ks, ks', hi, ?_⟩
  intro j hj
  rw [Bool.not_eq_true', decide_eq_false_iff_not]
  intro heq
  have hno := hks j hj
  rw [hp j heq] at hno
  cases hno

theorem find?_literal_of_find? {g : Grammar ι} {p : Candidate ι → Bool} {k : Candidate ι}
    (h : g.initial.find? p = some k)
    (hp : ∀ j : Candidate ι, j.alternative.literal = k.alternative.literal → p j = true) :
    g.alternatives.find? (·.literal = k.alternative.literal) = some k.alternative := by
  rw [← find?_candidates, ← g.initial_eq, find?_initial_of_find? h hp, Option.map_some]

theorem initial_ne_nil (g : Grammar ι) : g.initial ≠ [] := by
  obtain ⟨a, ha⟩ := List.exists_mem_of_ne_nil _ g.alternatives_ne_nil
  obtain ⟨k, hk, -⟩ := exists_mem_initial ha
  exact List.ne_nil_of_mem hk

theorem length_le_maxLength {g : Grammar ι} {a : Alternative ι} (h : a ∈ g.alternatives) :
    a.literal.length ≤ g.maxLength := by
  obtain ⟨k, hk, rfl⟩ := exists_mem_initial h
  have hsorted := g.initial_sorted
  rw [maxLength]
  cases hi : g.initial with
  | nil => rw [hi] at hk; cases hk
  | cons j ks =>
    rw [hi] at hk hsorted
    rcases List.mem_cons.1 hk with rfl | hk
    · exact Nat.le_refl _
    · exact List.rel_of_pairwise_cons hsorted hk

theorem maxLength_pos (g : Grammar ι) : 0 < g.maxLength := by
  obtain ⟨a, ha⟩ := List.exists_mem_of_ne_nil _ g.alternatives_ne_nil
  exact Nat.lt_of_lt_of_le (List.length_pos_iff.2 (g.literal_ne_nil a ha)) (length_le_maxLength ha)

end Grammar

end Munch
