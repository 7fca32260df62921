import Mathlib.Data.Fin.Tuple.Basic
import Munch.Proofs.Grammar

namespace Munch

variable {ι : Type} {as : List (Alternative ι)}

theorem zipIdx_eq_map_finRange {α : Type} (as : List α) :
    as.zipIdx = (List.finRange as.length).map fun i => (as[i], i.val) :=
  List.ext_getElem (by simp) (by simp)

/-- All the places of `as` in the order in which they are tried: the literals never get longer, and
those of one length stand as they were declared. -/
structure IsTrialOrder (as : List (Alternative ι)) (is : List (Fin as.length)) : Prop where
  perm : is.Perm (List.finRange as.length)
  pairwise : is.Pairwise fun i j =>
    as[j].length ≤ as[i].length ∧ (as[j].length = as[i].length → i < j)

theorem IsTrialOrder.unique {is js : List (Fin as.length)} (h : IsTrialOrder as is)
    (h' : IsTrialOrder as js) : is = js := by
  refine List.Perm.eq_of_pairwise ?_ h.pairwise h'.pairwise (h.perm.trans h'.perm.symm)
  intro i j _ _ hij hji
  have heq : as[j].length = as[i].length := Nat.le_antisymm hij.1 hji.1
  exact absurd (hij.2 heq) (Fin.not_lt.2 (Fin.le_of_lt (hji.2 heq.symm)))

def ranking (as : List (Alternative ι)) : List (Fin as.length) :=
  (List.finRange as.length).mergeSort fun i j => as[j].length ≤ as[i].length

theorem isTrialOrder_ranking (as : List (Alternative ι)) : IsTrialOrder as (ranking as) where
  perm := List.mergeSort_perm _ _
  pairwise := by
    have hsorted : (ranking as).Pairwise fun i j =>
        decide (as[j].length ≤ as[i].length) = true ∧
          (decide (as[i].length ≤ as[j].length) = true → i < j) := by
      refine pairwise_mergeSort_of_pairwise (fun i j k => ?_) (fun i j => ?_)
        (List.pairwise_lt_finRange as.length)
      · simpa only [decide_eq_true_eq] using fun hij hjk => Nat.le_trans hjk hij
      · simpa only [Bool.or_eq_true, decide_eq_true_eq] using Nat.le_total _ _
    refine hsorted.imp fun h => ?_
    simp only [decide_eq_true_eq] at h
    exact ⟨h.1, fun heq => h.2 (Nat.le_of_eq heq.symm)⟩

theorem candidates_eq_map_ranking (as : List (Alternative ι)) :
    candidates as = (ranking as).map fun i => ⟨i, as[i], as[i].literal⟩ := by
  rw [candidates, zipIdx_eq_map_finRange, List.map_map, ranking]
  symm
  apply List.map_mergeSort
  exact fun _ _ _ _ => rfl

/-- The literal at the place `i` was declared before, first of all at the place `j`. -/
structure Repeats (as : List (Alternative ι)) (i j : Fin as.length) : Prop where
  lt : j < i
  literal_eq : as[j].literal = as[i].literal
  first : ∀ k < j, as[k].literal ≠ as[i].literal

def original? (as : List (Alternative ι)) (i : Fin as.length) : Option (Fin as.length) :=
  (Fin.find? fun j : Fin i => as[j.castLE (Nat.le_of_lt i.2)].literal = as[i].literal).map
    (·.castLE (Nat.le_of_lt i.2))

theorem original?_eq_some_iff {i j : Fin as.length} :
    original? as i = some j ↔ Repeats as i j := by
  rw [original?, Option.map_eq_some_iff]
  simp only [Fin.find?_eq_some_iff, decide_eq_true_eq, decide_eq_false_iff_not]
  constructor
  · rintro ⟨j, ⟨heq, hfirst⟩, rfl⟩
    exact ⟨j.2, heq, fun k hk => hfirst ⟨k, Nat.lt_trans hk j.2⟩ hk⟩
  · rintro ⟨hlt, heq, hfirst⟩
    exact ⟨⟨j, hlt⟩, ⟨heq, fun k hk => hfirst _ hk⟩, rfl⟩

theorem earlier?_eq_original? (as : List (Alternative ι)) (i : Fin as.length) :
    Grammar.earlier? as as[i] i = (original? as i).map (as[·]) := by
  have htake : as.take i =
      (List.finRange i).map fun j => as[j.castLE (Nat.le_of_lt i.2)] :=
    List.ext_getElem (by simp) (by simp)
  rw [Grammar.earlier?, htake, List.find?_map, original?, Option.map_map,
    Fin.find?_eq_find?_finRange]
  rfl

def repetitions (as : List (Alternative ι)) : List (Fin as.length × Fin as.length) :=
  (List.finRange as.length).filterMap fun i => (original? as i).map (i, ·)

theorem mem_repetitions {i j : Fin as.length} : (i, j) ∈ repetitions as ↔ Repeats as i j := by
  rw [← original?_eq_some_iff]
  simp [repetitions]

theorem repetitions_sorted (as : List (Alternative ι)) :
    (repetitions as).Pairwise fun p q => p.1 < q.1 := by
  refine List.Pairwise.filterMap _ ?_ (List.pairwise_lt_finRange as.length)
  intro i i' hlt p hp q hq
  obtain ⟨j, -, rfl⟩ := Option.map_eq_some_iff.1 hp
  obtain ⟨j', -, rfl⟩ := Option.map_eq_some_iff.1 hq
  exact hlt

namespace Grammar

variable {g : Grammar ι}

theorem index_initial (g : Grammar ι) :
    g.initial.map (·.index) = (ranking g.alternatives).map Fin.val := by
  rw [g.initial_eq, candidates_eq_map_ranking, List.map_map]
  rfl

theorem trialOrder_eq (g : Grammar ι) :
    g.trialOrder = (ranking g.alternatives).map (g.alternatives[·]) := by
  rw [trialOrder, g.initial_eq, candidates_eq_map_ranking, List.map_map]
  rfl

theorem exists_length_eq_maxLength (g : Grammar ι) :
    ∃ a ∈ g.alternatives, a.length = g.maxLength := by
  rw [maxLength]
  cases hi : g.initial with
  | nil => exact absurd hi g.initial_ne_nil
  | cons k ks => exact ⟨k.alternative, alternative_mem (hi ▸ List.mem_cons_self), rfl⟩

theorem duplicates_eq_map (g : Grammar ι) :
    g.duplicates =
      (repetitions g.alternatives).map fun (i, j) => (g.alternatives[i], g.alternatives[j]) := by
  rw [duplicates, repetitions, zipIdx_eq_map_finRange, List.filterMap_map, List.map_filterMap]
  apply List.filterMap_congr
  intro i _
  simp only [Function.comp_apply, earlier?_eq_original?, Option.map_map]
  rfl

end Grammar

def FirstEmpty (as : List (Alternative ι)) (a : Alternative ι) : Prop :=
  ∃ before after, as = before ++ a :: after ∧ (∀ b ∈ before, b.literal ≠ []) ∧ a.literal = []

theorem find?_isEmpty_eq_some_iff {a : Alternative ι} :
    as.find? (·.isEmpty) = some a ↔ FirstEmpty as a := by
  rw [List.find?_eq_some_iff_append, FirstEmpty]
  simp only [Alternative.isEmpty, List.isEmpty_iff, Bool.not_eq_true', List.isEmpty_eq_false_iff]
  constructor
  · rintro ⟨hempty, before, after, has, hbefore⟩
    exact ⟨before, after, has, hbefore, hempty⟩
  · rintro ⟨before, after, has, hbefore, hempty⟩
    exact ⟨hempty, before, after, has, hbefore⟩

theorem FirstEmpty.unique {a b : Alternative ι} (ha : FirstEmpty as a) (hb : FirstEmpty as b) :
    a = b := by
  rw [← find?_isEmpty_eq_some_iff] at ha hb
  exact Option.some.inj (ha.symm.trans hb)

theorem FirstEmpty.not_forall_ne_nil {a : Alternative ι} (h : FirstEmpty as a) :
    ¬ ∀ b ∈ as, b.literal ≠ [] := by
  obtain ⟨before, after, rfl, -, hempty⟩ := h
  exact fun hliteral => hliteral a (by simp) hempty

namespace Grammar

variable [Quoted ι]

theorem run_warn (as : List (Alternative ι)) (noted : List Journal.Entry) :
    (warn as).run.run noted = (.ok (), noted ++ as.zipIdx.filterMap fun (a, i) =>
      (earlier? as a i).map (shadowed a)) := by
  rw [warn]
  generalize as.zipIdx = places
  induction places generalizing noted with
  | nil => rw [List.filterMap_nil, List.append_nil]; rfl
  | cons p places ih =>
    obtain ⟨a, i⟩ := p
    rw [List.forIn_cons, List.filterMap_cons]
    dsimp only
    cases earlier? as a i with
    | none => exact ih noted
    | some first =>
      rw [Option.map_some, List.append_cons]
      exact ih _

def warnings (g : Grammar ι) : List Journal.Entry :=
  g.duplicates.map fun (a, first) => shadowed a first

theorem run_warn_alternatives (g : Grammar ι) :
    (warn g.alternatives).run.run [] = (.ok (), g.warnings) := by
  rw [run_warn, List.nil_append, warnings, duplicates, List.map_filterMap]
  simp only [Option.map_map]
  rfl

theorem run_build (as : List (Alternative ι)) :
    (as = [] ∧ (build as).run.run [] = (.error .empty, [])) ∨
      (∃ a, FirstEmpty as a ∧
        (build as).run.run [] = (.error (.emptyAlternative (quoted a.id)), [])) ∨
      as ≠ [] ∧ (∀ a ∈ as, a.literal ≠ []) ∧
        ∃ g : Grammar ι, g.alternatives = as ∧ (build as).run.run [] = (.ok g, g.warnings) := by
  by_cases has : as = []
  · subst has
    exact .inl ⟨rfl, rfl⟩
  · rw [build, dif_neg has]
    split
    · next a ha => exact .inr (.inl ⟨a, find?_isEmpty_eq_some_iff.1 ha, rfl⟩)
    · next hnone =>
      have hliteral : ∀ a ∈ as, a.literal ≠ [] := fun a ha => by
        simpa [Alternative.isEmpty] using List.find?_eq_none.1 hnone a ha
      let g : Grammar ι :=
        { alternatives := as, alternatives_ne_nil := has, literal_ne_nil := hliteral }
      refine .inr (.inr ⟨has, hliteral, g, rfl, ?_⟩)
      have hwarn : (warn as).run.run [] = (.ok (), g.warnings) := g.run_warn_alternatives
      rw [ExceptT.run_bind, StateT.run_bind, hwarn]
      rfl

omit [Quoted ι] in
theorem eq_of_alternatives_eq {g g' : Grammar ι} (h : g.alternatives = g'.alternatives) :
    g = g' := by
  cases g with
  | mk as initial hinitial =>
    cases g' with
    | mk as' initial' hinitial' =>
      subst hinitial hinitial'
      cases h
      rfl

theorem run_build_alternatives (g : Grammar ι) :
    (build g.alternatives).run.run [] = (.ok g, g.warnings) := by
  rcases run_build g.alternatives with ⟨hnil, -⟩ | ⟨a, ha, -⟩ | ⟨-, -, g', hg', hrun⟩
  · exact absurd hnil g.alternatives_ne_nil
  · exact absurd g.literal_ne_nil ha.not_forall_ne_nil
  · rwa [eq_of_alternatives_eq hg'] at hrun

theorem ofList_trichotomy (as : List (Alternative ι)) :
    (as = [] ∧ ofList as = .error .empty) ∨
      (∃ a, FirstEmpty as a ∧ ofList as = .error (.emptyAlternative (quoted a.id))) ∨
      as ≠ [] ∧ (∀ a ∈ as, a.literal ≠ []) ∧ ∃ g, ofList as = .ok g ∧ g.alternatives = as := by
  rcases run_build as with ⟨has, hrun⟩ | ⟨a, ha, hrun⟩ | ⟨has, hliteral, g, hg, hrun⟩
  · exact .inl ⟨has, congrArg Prod.fst hrun⟩
  · exact .inr (.inl ⟨a, ha, congrArg Prod.fst hrun⟩)
  · exact .inr (.inr ⟨has, hliteral, g, congrArg Prod.fst hrun, hg⟩)

theorem entries_of_ofList (as : List (Alternative ι)) :
    (∀ e, ofList as = .error e → (build as).entries = []) ∧
      ∀ g, ofList as = .ok g → (build as).entries = g.warnings := by
  rw [ofList, Journal.Noting.result, Journal.Noting.entries]
  rcases run_build as with ⟨-, hrun⟩ | ⟨a, -, hrun⟩ | ⟨-, -, g, -, hrun⟩
  · rw [hrun]
    exact ⟨fun _ _ => rfl, nofun⟩
  · rw [hrun]
    exact ⟨fun _ _ => rfl, nofun⟩
  · rw [hrun]
    refine ⟨nofun, fun g' hg' => ?_⟩
    cases hg'
    rfl

theorem alternatives_of_ofList {g : Grammar ι} (h : ofList as = .ok g) : g.alternatives = as := by
  rcases ofList_trichotomy as with ⟨-, hempty⟩ | ⟨a, -, ha⟩ | ⟨-, -, g', hg', halternatives⟩
  · cases hempty.symm.trans h
  · cases ha.symm.trans h
  · cases hg'.symm.trans h
    exact halternatives

theorem ofList_eq_empty_iff : ofList as = .error .empty ↔ as = [] := by
  constructor
  · intro h
    rcases ofList_trichotomy as with ⟨has, -⟩ | ⟨a, -, ha⟩ | ⟨-, -, g, hg, -⟩
    · exact has
    · cases ha.symm.trans h
    · cases hg.symm.trans h
  · rintro rfl
    rfl

theorem ofList_eq_emptyAlternative_iff {text : String} :
    ofList as = .error (.emptyAlternative text) ↔ ∃ a, FirstEmpty as a ∧ text = quoted a.id := by
  rcases ofList_trichotomy as with ⟨rfl, hempty⟩ | ⟨a, ha, h⟩ | ⟨-, hliteral, g, hg, -⟩
  · rw [hempty]
    constructor
    · intro h
      cases h
    · rintro ⟨a, ha, -⟩
      exact absurd (List.forall_mem_nil _) ha.not_forall_ne_nil
  · rw [h]
    constructor
    · intro heq
      cases heq
      exact ⟨a, ha, rfl⟩
    · rintro ⟨b, hb, rfl⟩
      rw [ha.unique hb]
  · rw [hg]
    constructor
    · intro h
      cases h
    · rintro ⟨a, ha, -⟩
      exact absurd hliteral ha.not_forall_ne_nil

theorem exists_ofList_eq_ok_iff :
    (∃ g, ofList as = .ok g) ↔ as ≠ [] ∧ ∀ a ∈ as, a.literal ≠ [] := by
  constructor
  · rintro ⟨g, hg⟩
    rw [← alternatives_of_ofList hg]
    exact ⟨g.alternatives_ne_nil, g.literal_ne_nil⟩
  · rintro ⟨has, hliteral⟩
    rcases ofList_trichotomy as with ⟨hnil, -⟩ | ⟨a, ha, -⟩ | ⟨-, -, g, hg, -⟩
    · exact absurd hnil has
    · exact absurd hliteral ha.not_forall_ne_nil
    · exact ⟨g, hg⟩

/-- Building is refused of no alternatives and else of an empty literal, the first that there is,
and notes nothing then. Otherwise the grammar keeps the alternatives as they were declared and tries
them in the only trial order there is, and the warnings name all repeated literals in the order of
their declaration. -/
theorem ofList_cases (as : List (Alternative ι)) :
    (ofList as = .error .empty ↔ as = []) ∧
      (∀ text, ofList as = .error (.emptyAlternative text) ↔
        ∃ a, FirstEmpty as a ∧ text = quoted a.id) ∧
      ((∃ g, ofList as = .ok g) ↔ as ≠ [] ∧ ∀ a ∈ as, a.literal ≠ []) ∧
      (∀ e, ofList as = .error e → (build as).entries = []) ∧
      ∀ g, ofList as = .ok g →
        g.alternatives = as ∧
        (∃ is, IsTrialOrder as is ∧ (∀ js, IsTrialOrder as js → js = is) ∧
          g.initial.map (·.index) = is.map Fin.val ∧ g.trialOrder = is.map (as[·])) ∧
        1 ≤ g.maxLength ∧ (∃ a ∈ as, a.length = g.maxLength) ∧
        (∀ a ∈ as, a.length ≤ g.maxLength) ∧
        ∃ pairs : List (Fin as.length × Fin as.length),
          pairs.Pairwise (fun p q => p.1 < q.1) ∧ (∀ i j, (i, j) ∈ pairs ↔ Repeats as i j) ∧
          (build as).entries = pairs.map fun (i, j) =>
            let first := quoted as[j].id
            ⟨.warn, .grammar,
              s!"alternative {quoted as[i].id} duplicates the literal of {first}; {first} wins"⟩ := by
  refine ⟨ofList_eq_empty_iff, fun _ => ofList_eq_emptyAlternative_iff, exists_ofList_eq_ok_iff,
    (entries_of_ofList as).1, fun g hg => ?_⟩
  have hentries := (entries_of_ofList as).2 g hg
  obtain rfl := alternatives_of_ofList hg
  refine ⟨rfl, ⟨ranking g.alternatives, isTrialOrder_ranking _,
    fun _ h => h.unique (isTrialOrder_ranking _), g.index_initial, g.trialOrder_eq⟩,
    g.maxLength_pos, g.exists_length_eq_maxLength, fun _ => length_le_maxLength,
    repetitions g.alternatives, repetitions_sorted _, fun _ _ => mem_repetitions, ?_⟩
  rw [hentries, warnings, g.duplicates_eq_map, List.map_map]
  rfl

example :
    (build [⟨1, ['a']⟩, ⟨2, ['b', 'c']⟩, ⟨3, ['a']⟩, ⟨(4 : Int), ['a']⟩]).entries =
      [⟨.warn, .grammar, "alternative 3 duplicates the literal of 1; 1 wins"⟩,
        ⟨.warn, .grammar, "alternative 4 duplicates the literal of 1; 1 wins"⟩] := by
  cbv

end Grammar

end Munch
