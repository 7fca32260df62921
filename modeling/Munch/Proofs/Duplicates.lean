import Munch.Proofs.Building
import Munch.Proofs.Handback

namespace Munch

variable {σ ι : Type}

namespace Grammar

def name? (g : Grammar ι) (l : List Char) : Option ι :=
  (g.alternatives.find? (·.literal = l)).map (·.id)

/-- Both grammars have the same literals, and give each the same identity first. -/
def Agrees (g g' : Grammar ι) : Prop := ∀ l, g.name? l = g'.name? l

variable {g g' : Grammar ι} {r l : List Char}

theorem name?_eq_none_iff : g.name? l = none ↔ ∀ a ∈ g.alternatives, a.literal ≠ l := by
  rw [name?, Option.map_eq_none_iff, List.find?_eq_none]
  simp only [decide_eq_true_eq]

theorem name?_of_longest? (h : g.longest? r = some l) :
    ∃ a, g.lead? r = some a ∧ a.literal = l ∧ g.name? l = some a.id := by
  obtain ⟨a, -, hlead, hl⟩ := lead?_of_longest? h
  refine ⟨a, hlead, hl, ?_⟩
  rw [lead?, h, Option.bind_some] at hlead
  rw [name?, hlead, Option.map_some]

theorem maxLength_le_iff {n : Nat} :
    g.maxLength ≤ n ↔ ∀ a ∈ g.alternatives, a.literal.length ≤ n := by
  constructor
  · exact fun h a ha => Nat.le_trans (length_le_maxLength ha) h
  · intro h
    rw [maxLength]
    cases hi : g.initial with
    | nil => exact absurd hi g.initial_ne_nil
    | cons k ks => exact h _ (alternative_mem (hi ▸ List.mem_cons_self))

namespace Agrees

theorem refl (g : Grammar ι) : g.Agrees g := fun _ => rfl

theorem symm (h : g.Agrees g') : g'.Agrees g := fun l => (h l).symm

theorem exists_literal (h : g.Agrees g') {P : List Char → Prop}
    (ha : ∃ a ∈ g.alternatives, P a.literal) : ∃ a ∈ g'.alternatives, P a.literal := by
  obtain ⟨a, ha, hP⟩ := ha
  by_cases hnone : ∀ b ∈ g'.alternatives, b.literal ≠ a.literal
  · rw [← name?_eq_none_iff, ← h a.literal, name?_eq_none_iff] at hnone
    exact absurd rfl (hnone a ha)
  · push Not at hnone
    obtain ⟨b, hb, hba⟩ := hnone
    exact ⟨b, hb, by rwa [hba]⟩

theorem forall_literal (h : g.Agrees g') {P : List Char → Prop}
    (ha : ∀ a ∈ g.alternatives, P a.literal) : ∀ a ∈ g'.alternatives, P a.literal := by
  intro b hb
  obtain ⟨a, ha', hba⟩ := h.symm.exists_literal ⟨b, hb, rfl⟩ (P := (· = b.literal))
  rw [← hba]
  exact ha a ha'

theorem longest?_eq (h : g.Agrees g') (r : List Char) : g.longest? r = g'.longest? r := by
  suffices hle : ∀ {g g' : Grammar ι}, g.Agrees g' → ∀ l, g.longest? r = some l →
      g'.longest? r = some l by
    exact Option.ext fun l => ⟨hle h l, hle h.symm l⟩
  intro g g' h l hl
  obtain ⟨hmem, hp, hmax⟩ := longest?_eq_some_iff.1 hl
  exact longest?_eq_some_iff.2 ⟨h.exists_literal (P := (· = l)) hmem, hp,
    h.forall_literal (P := fun l' => l' <+: r → l'.length ≤ l.length) hmax⟩

theorem first_eq (h : g.Agrees g') (r : List Char) : g.first r = g'.first r := by
  cases r with
  | nil => rfl
  | cons c cs =>
    have hlongest := h.longest?_eq (c :: cs)
    rw [first, first]
    cases hl : g.longest? (c :: cs) with
    | none =>
      rw [lead?, lead?, ← hlongest, hl]
      rfl
    | some l =>
      obtain ⟨a, ha, hal, hname⟩ := name?_of_longest? hl
      obtain ⟨b, hb, hbl, hname'⟩ := name?_of_longest? (hlongest ▸ hl)
      have hid : a.id = b.id := Option.some.inj (hname ▸ h l ▸ hname')
      simp only [ha, hb, Alternative.text, hal, hbl, hid]

theorem undecided_iff (h : g.Agrees g') (r : List Char) : g.Undecided r ↔ g'.Undecided r :=
  ⟨h.exists_literal (P := fun l => r <+: l ∧ r ≠ l),
    h.symm.exists_literal (P := fun l => r <+: l ∧ r ≠ l)⟩

theorem maxLength_eq (h : g.Agrees g') : g.maxLength = g'.maxLength := by
  apply eq_of_forall_ge_iff
  intro n
  rw [maxLength_le_iff, maxLength_le_iff]
  exact ⟨h.forall_literal (P := (·.length ≤ n)), h.symm.forall_literal (P := (·.length ≤ n))⟩

theorem iff_forall_mem : g.Agrees g' ↔
    (∀ a ∈ g.alternatives, g.name? a.literal = g'.name? a.literal) ∧
      ∀ a ∈ g'.alternatives, g.name? a.literal = g'.name? a.literal := by
  constructor
  · exact fun h => ⟨fun a _ => h a.literal, fun a _ => h a.literal⟩
  · rintro ⟨h, h'⟩ l
    by_cases hl : ∃ a, (a ∈ g.alternatives ∨ a ∈ g'.alternatives) ∧ a.literal = l
    · obtain ⟨a, ha, rfl⟩ := hl
      exact ha.elim (h a) (h' a)
    · rw [name?_eq_none_iff.2 fun a ha hal => hl ⟨a, .inl ha, hal⟩,
        name?_eq_none_iff.2 fun a ha hal => hl ⟨a, .inr ha, hal⟩]

instance [DecidableEq ι] (g g' : Grammar ι) : Decidable (g.Agrees g') :=
  decidable_of_iff' _ iff_forall_mem

end Agrees

end Grammar

namespace Candidate

theorem after_incomplete_iff {us : List Char} {k : Candidate ι} :
    (∃ j, k.after us = some j ∧ j.isComplete = false) ↔
      us <+: k.alternative.literal ∧ us ≠ k.alternative.literal := by
  have hany := any_isComplete_after us k
  by_cases hp : us <+: k.alternative.literal
  · rw [after, if_pos hp] at hany ⊢
    rw [Option.any_some] at hany
    rw [and_iff_right hp, ne_comm, ne_eq, ← decide_eq_false_iff_not (p := _ = us), ← hany]
    simp only [Option.some.injEq, exists_eq_left']
  · rw [after, if_neg hp]
    refine iff_of_false ?_ fun h => hp h.1
    rintro ⟨j, hj, -⟩
    cases hj

end Candidate

namespace Search

variable {g g' : Grammar ι} {us : List Char}

theorem after_nil (g : Grammar ι) : after g [] = start g := rfl

theorem viable_after_eq_nil_iff : (after g us).viable = [] ↔ ¬ g.Undecided us := by
  constructor
  · rintro hv ⟨a, ha, hund⟩
    obtain ⟨k, hk, rfl⟩ := Grammar.exists_mem_initial ha
    obtain ⟨j, hj, hc⟩ := Candidate.after_incomplete_iff.2 hund
    have hmem : j ∈ (after g us).viable := by
      rw [viable_after, List.mem_filter, hc]
      exact ⟨List.mem_filterMap.2 ⟨k, hk, hj⟩, rfl⟩
    rw [hv] at hmem
    cases hmem
  · intro hund
    apply List.eq_nil_iff_forall_not_mem.2
    intro j hj
    rw [viable_after, List.mem_filter, reached, List.mem_filterMap, Bool.not_eq_true'] at hj
    obtain ⟨⟨k, hk, hkj⟩, hc⟩ := hj
    exact hund ⟨_, Grammar.alternative_mem hk, Candidate.after_incomplete_iff.1 ⟨j, hkj, hc⟩⟩

variable [Source σ Char]

theorem run_after (h : g.Agrees g') (us : List Char) (c : Channel σ Char) :
    ∃ (text : Except StreamError (List Char)) (d : Channel σ Char),
      (after g us).run c = (text.map (after g), d) ∧
        (after g' us).run c = (text.map (after g'), d) := by
  have hviable : ∀ us, (after g us).viable = [] ↔ (after g' us).viable = [] := by
    intro us
    rw [viable_after_eq_nil_iff, h.undecided_iff, viable_after_eq_nil_iff]
  generalize hs : after g us = s
  induction s, c using run.induct generalizing us with
  | case1 s c hv =>
    subst hs
    rw [run, dif_pos hv, run, dif_pos ((hviable us).1 hv)]
    exact ⟨.ok us, c, rfl, rfl⟩
  | case2 s c hv e d hr =>
    subst hs
    rw [run, dif_neg hv, run, dif_neg (mt (hviable us).2 hv), hr]
    exact ⟨.error e, d, rfl, rfl⟩
  | case3 s c hv d hr =>
    subst hs
    rw [run, dif_neg hv, run, dif_neg (mt (hviable us).2 hv), hr]
    exact ⟨.ok us, d, rfl, rfl⟩
  | case4 s c hv u d hr ih =>
    subst hs
    rw [run, dif_neg hv, run, dif_neg (mt (hviable us).2 hv), hr]
    simp only [← after_append] at ih ⊢
    exact ih (us ++ [u]) rfl

end Search

namespace Lexer

def under (l : Lexer σ ι) (g : Grammar ι) : Lexer σ ι := { l with grammar := g }

def conclude (first : List Char → Outcome ι) :
    Except StreamError (List Char) × Channel σ Char →
      Except StreamError (Outcome ι) × Channel σ Char
  | (.error e, c) => (.error e, c)
  | (.ok us, c) =>
    if us = [] then (.ok .ended, c)
    else
      match c.unread (us.drop (first us).text.length).reverse with
      | (.error e, c) => (.error e, c)
      | (.ok (), c) => (.ok (first us), c.commit)

variable {l : Lexer σ ι} {g g' : Grammar ι}

theorem exists_of_conclude_matched {first : List Char → Outcome ι}
    {text : Except StreamError (List Char)} {c : Channel σ Char} {t : Token ι}
    (h : (conclude first (text, c)).1 = .ok (.matched t)) :
    ∃ us, text = .ok us ∧ first us = .matched t := by
  cases text with
  | error e => cases h
  | ok us =>
    refine ⟨us, rfl, ?_⟩
    rw [conclude] at h
    split at h
    · cases h
    · split at h
      · cases h
      · exact Except.ok.inj h

theorem pushBack_under (l : Lexer σ ι) (g : Grammar ι) (t : Token ι) :
    (l.under g).pushBack t = ((l.pushBack t).1, (l.pushBack t).2.under g) := by
  cases hc : l.channel.isClosed with
  | true => rw [pushBack_of_closed hc, pushBack_of_closed (l := l.under g) hc]
  | false => rw [pushBack_of_open hc, pushBack_of_open (l := l.under g) hc]; rfl

variable [Source σ Char]

theorem nextToken_of_run (hc : l.channel.isClosed = false) (hp : l.pending = [])
    {text : Except StreamError (List Char)} {d : Channel σ Char}
    (hrun : (Search.after l.grammar []).run l.channel = (text.map (Search.after l.grammar), d)) :
    l.nextToken = ((conclude l.grammar.first (text, d)).1,
      { l with channel := (conclude l.grammar.first (text, d)).2 }) := by
  rw [Search.after_nil] at hrun
  rw [nextToken, hc, if_neg Bool.false_ne_true, hp, hrun, conclude.eq_def]
  cases text with
  | error e => rfl
  | ok us =>
    by_cases hu : us = []
    · subst hu
      rfl
    · simp only [Except.map, Search.verdict_after _ hu, Search.surplus_after, if_neg hu]
      cases d.unread (us.drop (l.grammar.first us).text.length).reverse with
      | mk answer c => cases answer <;> rfl

theorem nextToken_under (h : l.grammar.Agrees g') :
    (l.under g').nextToken = (l.nextToken.1, l.nextToken.2.under g') := by
  cases hc : l.channel.isClosed with
  | true => rw [nextToken_of_closed hc, nextToken_of_closed (l := l.under g') hc]
  | false =>
    cases hp : l.pending with
    | cons t ts =>
      rw [nextToken_of_waiting hc hp, nextToken_of_waiting (l := l.under g') hc hp]
      rfl
    | nil =>
      obtain ⟨text, d, hrun, hrun'⟩ := Search.run_after h [] l.channel
      have hfirst : l.grammar.first = g'.first := funext h.first_eq
      rw [nextToken_of_run hc hp hrun, nextToken_of_run (l := l.under g') hc hp hrun', hfirst]
      rfl

theorem turn_under (h : l.grammar.Agrees g') (call : Call ι) :
    (l.under g').turn call =
      ⟨l.under g', (l.turn call).event, (l.turn call).after.under g'⟩ := by
  cases call with
  | next => rw [turn, nextToken_under h]; rfl
  | pushBack t => rw [turn, pushBack_under]; rfl
  | close => rfl

theorem Reachable.session_under {s : σ} (h : l.Reachable g s) (hg : g.Agrees g')
    (calls : List (Call ι)) :
    ((l.under g').session calls).1.map Turn.shown = (l.session calls).1.map Turn.shown := by
  induction calls generalizing l with
  | nil => rfl
  | cons call calls ih =>
    rw [Lexer.session, Lexer.session, turn_under (h.valid.1.symm ▸ hg), List.map_cons,
      List.map_cons, ih (h.turn call)]
    rfl

omit [Source σ Char] in
theorem create_under (hg : g.Agrees g') (s : σ) : (create g s).under g' = create g' s := by
  rw [under, create, create, hg.maxLength_eq]

end Lexer

namespace Grammar

def repeats (g : Grammar ι) (i : Nat) : Bool :=
  (g.alternatives[i]?).any fun a => (g.alternatives.take i).any (·.literal = a.literal)

variable {g : Grammar ι} {l : List Char}

theorem repeats_eq_false_iff {i : Nat} {a : Alternative ι} (hi : g.alternatives[i]? = some a) :
    g.repeats i = false ↔ g.alternatives.zipIdx.find? (·.1.literal = a.literal) = some (a, i) := by
  obtain ⟨hlt, ha⟩ := List.getElem?_eq_some_iff.1 hi
  rw [repeats, hi, Option.any_some, List.any_eq_false, List.find?_eq_some_iff_getElem]
  simp only [decide_eq_true_eq, List.getElem_zipIdx, List.length_zipIdx, Nat.zero_add, true_and,
    Prod.mk.injEq, Bool.not_eq_true', decide_eq_false_iff_not]
  constructor
  · intro h
    refine ⟨i, hlt, ⟨ha, rfl⟩, fun j hj => ?_⟩
    exact h _ (List.mem_take_iff_getElem.2 ⟨j, by omega, rfl⟩)
  · rintro ⟨j, _, ⟨-, rfl⟩, h⟩ b hb
    obtain ⟨m, hm, rfl⟩ := List.mem_take_iff_getElem.1 hb
    exact h m (by omega)

theorem duplicates_eq (g : Grammar ι) :
    g.duplicates.map Prod.fst = (g.alternatives.zipIdx.filter (g.repeats ·.2)).map Prod.fst := by
  rw [duplicates, List.map_filterMap, ← List.filterMap_eq_map, List.filterMap_filter]
  apply List.filterMap_congr
  rintro ⟨a, i⟩ hi
  have hrepeats : g.repeats i = (g.alternatives.take i).any (·.literal = a.literal) := by
    rw [repeats, List.mem_zipIdx_iff_getElem?.1 hi, Option.any_some]
  simp only [Option.map_map]
  rw [hrepeats, ← List.isSome_find?, earlier?]
  cases (g.alternatives.take i).find? (·.literal = a.literal) <;> rfl

theorem find?_filter_of_find? {α : Type} {p q : α → Bool} {as : List α}
    (h : ∀ a, as.find? p = some a → q a = true) : (as.filter q).find? p = as.find? p := by
  cases hf : as.find? p with
  | none =>
    rw [List.find?_eq_none] at hf ⊢
    exact fun a ha => hf a (List.mem_filter.1 ha).1
  | some a =>
    obtain ⟨hp, bs, cs, has, hbs⟩ := List.find?_eq_some_iff_append.1 hf
    refine List.find?_eq_some_iff_append.2 ⟨hp, bs.filter q, cs.filter q, ?_, fun b hb => ?_⟩
    · rw [has, List.filter_append, List.filter_cons_of_pos (h a hf)]
    · exact hbs b (List.mem_filter.1 hb).1

def fresh (g : Grammar ι) : List (Alternative ι) :=
  (g.alternatives.zipIdx.filter (!g.repeats ·.2)).map Prod.fst

theorem find?_fresh (g : Grammar ι) (l : List Char) :
    g.fresh.find? (·.literal = l) = g.alternatives.find? (·.literal = l) := by
  have hfst : g.alternatives = g.alternatives.zipIdx.map Prod.fst := by rw [List.zipIdx_map_fst]
  conv => rhs; rw [hfst, List.find?_map]
  rw [fresh, List.find?_map, find?_filter_of_find?]
  · rintro ⟨a, i⟩ hf
    have ha : a.literal = l := by simpa using List.find?_some hf
    have hi := List.mem_zipIdx_iff_getElem?.1 (List.mem_of_find?_eq_some hf)
    subst ha
    rw [(repeats_eq_false_iff hi).2 hf]
    rfl

theorem mem_of_mem_fresh {a : Alternative ι} (h : a ∈ g.fresh) : a ∈ g.alternatives := by
  obtain ⟨⟨a, i⟩, hi, rfl⟩ := List.mem_map.1 h
  exact List.mem_of_getElem? (List.mem_zipIdx_iff_getElem?.1 (List.mem_filter.1 hi).1)

def distinct (g : Grammar ι) : Grammar ι where
  alternatives := g.fresh
  alternatives_ne_nil := by
    obtain ⟨a, ha⟩ := List.exists_mem_of_ne_nil _ g.alternatives_ne_nil
    have hfind := g.find?_fresh a.literal
    intro hnil
    rw [hnil, List.find?_nil] at hfind
    exact List.find?_eq_none.1 hfind.symm a ha (decide_eq_true rfl)
  literal_ne_nil := fun a ha => g.literal_ne_nil a (mem_of_mem_fresh ha)

theorem agrees_distinct (g : Grammar ι) : g.Agrees g.distinct := by
  intro l
  rw [name?, name?, distinct, find?_fresh]

theorem find?_initial (g : Grammar ι) (l : List Char) :
    g.initial.find? (·.alternative.literal = l) =
      (g.alternatives.zipIdx.find? (·.1.literal = l)).map fun (a, i) => ⟨i, a, a.literal⟩ := by
  rw [g.initial_eq, find?_candidates_zipIdx]

theorem place_of_find? {k : Candidate ι}
    (h : g.initial.find? (·.alternative.literal = k.alternative.literal) = some k) :
    g.alternatives[k.index]? = some k.alternative ∧ g.repeats k.index = false := by
  rw [find?_initial] at h
  obtain ⟨⟨a, i⟩, hf, rfl⟩ := Option.map_eq_some_iff.1 h
  have hi := List.mem_zipIdx_iff_getElem?.1 (List.mem_of_find?_eq_some hf)
  exact ⟨hi, (repeats_eq_false_iff hi).2 hf⟩

theorem find?_isPrefixOf_literal {i : Nat} {a : Alternative ι}
    (hi : g.alternatives[i]? = some a) (hr : g.repeats i = false) :
    g.initial.find? (·.alternative.literal.isPrefixOf a.literal) = some ⟨i, a, a.literal⟩ := by
  have hne := g.literal_ne_nil a (List.mem_of_getElem? hi)
  have hfind := g.find?_initial a.literal
  rw [(repeats_eq_false_iff hi).1 hr, Option.map_some] at hfind
  have hlast := Search.find?_isPrefixOf_append g a.literal.dropLast (a.literal.getLast hne)
  rwa [List.dropLast_append_getLast, hfind, Option.some_or] at hlast

theorem first_literal {i : Nat} {a : Alternative ι} (hi : g.alternatives[i]? = some a)
    (hr : g.repeats i = false) : g.first a.literal = .matched ⟨a.text, a.id⟩ := by
  have hlead : g.lead? a.literal = some a := by
    rw [lead?_eq_find?, find?_isPrefixOf_literal hi hr, Option.map_some]
  cases hl : a.literal with
  | nil => exact absurd hl (g.literal_ne_nil a (List.mem_of_getElem? hi))
  | cons c cs =>
    rw [hl] at hlead
    rw [first, hlead]

end Grammar

namespace Search

variable {g : Grammar ι} {us : List Char}

theorem place_of_best {k : Candidate ι} {text : List Char}
    (h : (after g us).best = some (k, text)) :
    g.alternatives[k.index]? = some k.alternative ∧ g.repeats k.index = false := by
  rw [best_after] at h
  obtain ⟨j, hf, hj⟩ := Option.map_eq_some_iff.1 h
  obtain ⟨rfl, -⟩ := Prod.mk.inj hj
  have hp := List.find?_some hf
  exact Grammar.place_of_find? (k := j)
    (Grammar.find?_initial_of_find? hf fun m hm => by rw [hm]; exact hp)

theorem best_of_matched {t : Token ι} (h : g.first us = .matched t) :
    ∃ k text, (after g us).best = some (k, text) ∧ t = ⟨k.alternative.text, k.alternative.id⟩ := by
  cases us with
  | nil => cases h
  | cons u us =>
    rw [Grammar.first, Grammar.lead?_eq_find?] at h
    rw [best_after]
    cases hf : g.initial.find? (·.alternative.literal.isPrefixOf (u :: us)) with
    | none => rw [hf] at h; cases h
    | some k => rw [hf] at h; cases h; exact ⟨_, _, rfl, rfl⟩

end Search

namespace Lexer

section Source

variable [Source σ Char]

def winner? (l : Lexer σ ι) : Option Nat :=
  match (Search.start l.grammar).run l.channel with
  | (.ok s, _) => s.best.map (·.1.index)
  | (.error _, _) => none

variable {l : Lexer σ ι}

theorem winner?_of_run {us : List Char} {d : Channel σ Char}
    (h : (Search.after l.grammar []).run l.channel = (.ok (Search.after l.grammar us), d)) :
    l.winner? = (Search.after l.grammar us).best.map (·.1.index) := by
  rw [Search.after_nil] at h
  rw [winner?, h]

theorem repeats_of_winner? {i : Nat} (h : l.winner? = some i) : l.grammar.repeats i = false := by
  obtain ⟨text, d, hrun, -⟩ := Search.run_after (.refl l.grammar) [] l.channel
  cases text with
  | error e =>
    rw [winner?, ← Search.after_nil, hrun] at h
    cases h
  | ok us =>
    rw [winner?_of_run hrun] at h
    obtain ⟨⟨k, text⟩, hbest, rfl⟩ := Option.map_eq_some_iff.1 h
    exact (Search.place_of_best hbest).2

theorem winner?_of_matched (hp : l.pending = []) {t : Token ι}
    (h : l.nextToken.1 = .ok (.matched t)) :
    ∃ i a, l.winner? = some i ∧ l.grammar.alternatives[i]? = some a ∧ t = ⟨a.text, a.id⟩ := by
  cases hc : l.channel.isClosed with
  | true => rw [nextToken_of_closed hc] at h; cases h
  | false =>
    obtain ⟨text, d, hrun, -⟩ := Search.run_after (.refl l.grammar) [] l.channel
    rw [nextToken_of_run hc hp hrun] at h
    obtain ⟨us, rfl, hfirst⟩ := exists_of_conclude_matched h
    obtain ⟨k, text, hbest, ht⟩ := Search.best_of_matched hfirst
    refine ⟨k.index, k.alternative, ?_, (Search.place_of_best hbest).1, ht⟩
    rw [winner?_of_run hrun, hbest]
    rfl

end Source

theorem winner?_literal {g : Grammar ι} {i : Nat} {a : Alternative ι}
    (hi : g.alternatives[i]? = some a) (hr : g.repeats i = false) :
    (create g a.literal).winner? = some i ∧
      (create g a.literal).nextToken.1 = .ok (.matched ⟨a.text, a.id⟩) := by
  have hshows := Stack.shows_of_delivers (delivers_list a.literal)
  have hanswer : (create g a.literal).nextToken.1 = .ok (.matched ⟨a.text, a.id⟩) := by
    rw [(Refines.create g a.literal).nextToken.1,
      (Grammar.answer_of_clear hshows (.inr ⟨rfl, Nat.one_pos⟩)).1, Grammar.first_literal hi hr]
  refine ⟨?_, hanswer⟩
  -- the winner has the same literal, and both places are the first with it
  obtain ⟨j, b, hj, hb, htoken⟩ := winner?_of_matched rfl hanswer
  have hliteral : a.literal = b.literal := String.ofList_injective (Token.mk.inj htoken).1
  have hfirst := (Grammar.repeats_eq_false_iff hi).1 hr
  have hfirst' := (Grammar.repeats_eq_false_iff (g := g) hb).1 (repeats_of_winner? hj)
  rw [← hliteral, hfirst] at hfirst'
  cases hfirst'
  exact hj

section Source

variable [Source σ Char] {g g' : Grammar ι}

/-- All that a session shows of its grammar is the set of the literals and the identity declared
first for each. The alternatives whose literals were declared before, which are those that building
the grammar warns of, could be missing: a token that was not handed back never comes from one of
them. Every other alternative wins on its own literal. -/
theorem session_agrees (h : g.Agrees g') (s : σ) (calls : List (Call ι)) :
    (create g s).channel = (create g' s).channel ∧
      ((create g s).session calls).1.map Turn.shown =
        ((create g' s).session calls).1.map Turn.shown ∧
      g.duplicates.map Prod.fst = (g.alternatives.zipIdx.filter (g.repeats ·.2)).map Prod.fst ∧
      (∀ [Quoted ι], (Grammar.build g.alternatives).result = .ok g ∧
        (Grammar.build g.alternatives).entries =
          g.duplicates.map fun (a, first) => Grammar.shadowed a first) ∧
      ((create g s).session calls).1.map Turn.shown =
        ((create g.distinct s).session calls).1.map Turn.shown ∧
      (∀ now ∈ ((create g s).session calls).1, ∀ t, now.before.pending = [] →
        now.event = .next (.ok (.matched t)) →
          ∃ i a, now.before.winner? = some i ∧ g.alternatives[i]? = some a ∧
            g.repeats i = false ∧ t = ⟨a.text, a.id⟩) ∧
      ∀ i a, g.alternatives[i]? = some a → g.repeats i = false →
        (create g a.literal).winner? = some i ∧
          (create g a.literal).nextToken.1 = .ok (.matched ⟨a.text, a.id⟩) := by
  have hreach : (create g s).Reachable g s := .create
  have hunder : ∀ {g'}, g.Agrees g' → ((create g s).session calls).1.map Turn.shown =
      ((create g' s).session calls).1.map Turn.shown := by
    intro g' h
    rw [← create_under h, hreach.session_under h]
  refine ⟨?_, hunder h, g.duplicates_eq, ?_, hunder g.agrees_distinct, ?_, ?_⟩
  · rw [create, create, h.maxLength_eq]
  · intro _
    exact ⟨congrArg Prod.fst g.run_build_alternatives, congrArg Prod.snd g.run_build_alternatives⟩
  · intro now hnow t hp he
    obtain ⟨earlier, later, hturns⟩ := List.append_of_mem hnow
    obtain ⟨before, call, hbefore, hcall⟩ := session_split hturns
    have hgrammar := (hreach.session before).valid.1
    rw [hbefore] at hgrammar
    have hanswer : now.before.nextToken.1 = .ok (.matched t) := by
      rw [hcall] at he
      cases call with
      | next => exact Event.next.inj he
      | pushBack t => cases he
      | close => cases he
    obtain ⟨i, a, hi, ha, ht⟩ := winner?_of_matched hp hanswer
    have hrepeats := repeats_of_winner? hi
    rw [hgrammar] at ha hrepeats
    exact ⟨i, a, hi, ha, hrepeats, ht⟩
  · exact fun i a hi hr => winner?_literal hi hr

end Source

def shuffled : Grammar Nat where
  alternatives :=
    [⟨2, ['b', 'd']⟩, ⟨1, ['a', 'b', 'c']⟩, ⟨7, ['b', 'd']⟩, ⟨0, ['a']⟩, ⟨8, ['a']⟩]
  alternatives_ne_nil := List.cons_ne_nil _ _
  literal_ne_nil := by decide

theorem session_agrees_shuffled :
    overlapping.Agrees shuffled ∧
      ((create overlapping ['a', 'b', 'd', 'x']).session [.next, .next, .close]).1.map Turn.shown =
        ((create shuffled ['a', 'b', 'd', 'x']).session [.next, .next, .close]).1.map Turn.shown ∧
      ((create overlapping ['a', 'b', 'd', 'x']).session [.next, .next, .close]).1.map Turn.event =
        [.next (.ok (.matched ⟨"a", 0⟩)), .next (.ok (.matched ⟨"bd", 2⟩)), .close (.ok ())] :=
  have h : overlapping.Agrees shuffled := by decide
  ⟨h, (session_agrees h ['a', 'b', 'd', 'x'] [.next, .next, .close]).2.1, by cbv⟩

end Lexer

end Munch
