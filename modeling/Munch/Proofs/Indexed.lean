import Munch.Proofs.Accounting
import Munch.Proofs.Checked

/-! A step of a lexer once more. Here alternatives and characters are looked up by index, and what
was read is cut where the choice ends. Each of these places is checked, and the channel is the
checked one. A lexer with a valid channel passes all the checks and does what its step does. -/

namespace Munch

variable {σ ι : Type}

structure Attempt where
  scratch : List Char
  viable : List Nat
  best : Option (Nat × Nat)

section Passing

variable {α β : Type} {as : List α} {f : α → β} {p : β → Option Bool} {q : α → Bool}

theorem filterAuxM_map (h : ∀ a ∈ as, p (f a) = some (q a)) (bs : List β) :
    List.filterAuxM p (as.map f) bs = some (((as.filter q).map f).reverse ++ bs) := by
  induction as generalizing bs with
  | nil => rfl
  | cons a as ih =>
    have hrest := ih fun b hb => h b (List.mem_cons_of_mem a hb)
    simp only [List.map_cons, List.filterAuxM, h a List.mem_cons_self, Option.bind_eq_bind,
      Option.bind_some, hrest, List.filter_cons]
    cases q a <;> simp

theorem filterM_map (h : ∀ a ∈ as, p (f a) = some (q a)) :
    (as.map f).filterM p = some ((as.filter q).map f) := by
  rw [List.filterM, filterAuxM_map h]
  simp

theorem findM?_map (h : ∀ a ∈ as, p (f a) = some (q a)) :
    (as.map f).findM? p = some ((as.find? q).map f) := by
  induction as with
  | nil => rfl
  | cons a as ih =>
    have hrest := ih fun b hb => h b (List.mem_cons_of_mem a hb)
    simp only [List.map_cons, List.findM?, h a List.mem_cons_self, Option.bind_eq_bind,
      Option.bind_some, hrest, List.find?_cons]
    cases q a <;> rfl

end Passing

namespace Attempt

def start (g : Grammar ι) : Attempt := ⟨[], g.initial.map (·.index), none⟩

def reads? (g : Grammar ι) (n : Nat) (c : Char) (i : Nat) : Option Bool := do
  let a ← g.alternatives[i]?
  let d ← a.literal[n]?
  return decide (d = c)

def endsAt? (g : Grammar ι) (n i : Nat) : Option Bool := do
  let a ← g.alternatives[i]?
  return decide (a.length = n)

def exceeds? (g : Grammar ι) (n i : Nat) : Option Bool := do
  let a ← g.alternatives[i]?
  return decide (n < a.length)

def advance? (g : Grammar ι) (s : Attempt) (c : Char) : Option Attempt := do
  let n := s.scratch.length
  let reached ← s.viable.filterM (reads? g n c)
  let done ← reached.findM? (endsAt? g (n + 1))
  let viable ← reached.filterM (exceeds? g (n + 1))
  return ⟨s.scratch ++ [c], viable, (done.map (·, n + 1)).or s.best⟩

theorem length_lt_of_advance? {g : Grammar ι} {s t : Attempt} {c : Char} (hv : s.viable ≠ [])
    (h : s.advance? g c = some t) :
    s.scratch.length < g.maxLength ∧ t.scratch.length = s.scratch.length + 1 := by
  simp only [advance?, bind, Option.bind_eq_some_iff] at h
  obtain ⟨reached, hreached, done, -, viable, -, ht⟩ := h
  cases ht
  refine ⟨?_, List.length_append⟩
  obtain ⟨i, is, hi⟩ := List.exists_cons_of_ne_nil hv
  rw [hi] at hreached
  simp only [List.filterM, List.filterAuxM, reads?, bind, Option.bind_eq_some_iff] at hreached
  obtain ⟨-, ⟨-, ⟨a, ha, d, hd, -⟩, -⟩, -⟩ := hreached
  obtain ⟨hlt, -⟩ := List.getElem?_eq_some_iff.1 hd
  exact Nat.lt_of_lt_of_le hlt (Grammar.length_le_maxLength (List.mem_of_getElem? ha))

variable [Source σ Char]

def run? (g : Grammar ι) (s : Attempt) (c : Channel σ Char) :
    Option (Except StreamError Attempt × Channel σ Char) :=
  if _hv : s.viable = [] then some (.ok s, c)
  else
    match c.read? with
    | none => none
    | some (.error e, c) => some (.error e, c)
    | some (.ok none, c) => some (.ok s, c)
    | some (.ok (some u), c) =>
      match _h : s.advance? g u with
      | none => none
      | some s => s.run? g c
termination_by g.maxLength - s.scratch.length
decreasing_by
  have := length_lt_of_advance? _hv _h
  omega

def from? {α : Type} (as : List α) (n : Nat) : Option (List α) :=
  if n ≤ as.length then some (as.drop n) else none

def upTo? {α : Type} (as : List α) (n : Nat) : Option (List α) :=
  if n ≤ as.length then some (as.take n) else none

def kept (s : Attempt) : Nat :=
  match s.best with
  | some (_, length) => length
  | none => 1

def surplus? (s : Attempt) : Option (List Char) := from? s.scratch s.kept

def outcome? (g : Grammar ι) (s : Attempt) : Option (Outcome ι) :=
  match s.best with
  | some (i, length) => do
    let text ← upTo? s.scratch length
    let a ← g.alternatives[i]?
    return .matched ⟨.ofList text, a.id⟩
  | none => do
    let c ← s.scratch[0]?
    return .skipped c

end Attempt

namespace Lexer

def create? (grammar : Grammar ι) (source : σ) : Option (Lexer σ ι) := do
  let capacity ← sub? grammar.maxLength 1
  return ⟨grammar, .create source capacity, []⟩

variable [Source σ Char]

def close? (l : Lexer σ ι) : Option (Except StreamError Unit × Lexer σ ι) := do
  let (result, channel) ← l.channel.close?
  return (result, { l with channel, pending := [] })

def nextToken? (l : Lexer σ ι) : Option (Except StreamError (Outcome ι) × Lexer σ ι) :=
  if l.channel.isClosed then some (.error .closed, l)
  else
    match l.pending with
    | t :: pending => some (.ok (.matched t), { l with pending })
    | [] =>
      match (Attempt.start l.grammar).run? l.grammar l.channel with
      | none => none
      | some (.error e, channel) => some (.error e, { l with channel })
      | some (.ok s, channel) =>
        if s.scratch.isEmpty then some (.ok .ended, { l with channel })
        else do
          let surplus ← s.surplus?
          match ← channel.unread? surplus.reverse with
          | (.error e, channel) => return (.error e, { l with channel })
          | (.ok (), channel) =>
            let outcome ← s.outcome? l.grammar
            return (.ok outcome, { l with channel := channel.commit })

end Lexer

def Candidate.Placed (g : Grammar ι) (us : List Char) (k : Candidate ι) : Prop :=
  g.alternatives[k.index]? = some k.alternative ∧ us ++ k.rest = k.alternative.literal

def Search.Placed (g : Grammar ι) (s : Search ι) : Prop :=
  ∀ k ∈ s.viable, k.Placed g s.text.reverse

theorem Candidate.Placed.of_mem_initial {g : Grammar ι} {k : Candidate ι} (h : k ∈ g.initial) :
    k.Placed g [] := by
  obtain ⟨i, hi, hk⟩ := Grammar.mem_initial.1 h
  rw [hk]
  exact ⟨hi, rfl⟩

theorem Candidate.Placed.advance? {g : Grammar ι} {us : List Char} {k k' : Candidate ι} {c : Char}
    (h : k.Placed g us) (ha : k.advance? c = some k') : k'.Placed g (us ++ [c]) := by
  obtain ⟨hindex, hliteral⟩ := h
  rw [Candidate.advance?] at ha
  split at ha
  · cases ha
  · next d rest hrest =>
    split at ha
    · next hd =>
      cases ha
      rw [hrest, hd] at hliteral
      exact ⟨hindex, by rw [List.append_assoc]; exact hliteral⟩
    · cases ha

namespace Candidate.Placed

variable {g : Grammar ι} {us : List Char} {k : Candidate ι}

theorem length_eq (h : k.Placed g us) : k.alternative.length = us.length + k.rest.length := by
  rw [Alternative.length, ← h.2, List.length_append]

theorem reads?_eq (h : k.Placed g us) (hr : k.rest ≠ []) (c : Char) :
    Attempt.reads? g us.length c k.index = some (decide (k.rest.head? = some c)) := by
  obtain ⟨hindex, hliteral⟩ := h
  cases hrest : k.rest with
  | nil => exact absurd hrest hr
  | cons d rest =>
    have hget : k.alternative.literal[us.length]? = some d := by
      rw [← hliteral, hrest, List.getElem?_append_right (Nat.le_refl _), Nat.sub_self]
      rfl
    simp [Attempt.reads?, hindex, hget]

theorem endsAt?_eq (h : k.Placed g us) :
    Attempt.endsAt? g us.length k.index = some k.isComplete := by
  have hlength := h.length_eq
  cases hrest : k.rest <;> simp [Attempt.endsAt?, h.1, hlength, isComplete, hrest]

theorem exceeds?_eq (h : k.Placed g us) :
    Attempt.exceeds? g us.length k.index = some !k.isComplete := by
  have hlength := h.length_eq
  cases hrest : k.rest <;> simp [Attempt.exceeds?, h.1, hlength, isComplete, hrest]

end Candidate.Placed

theorem Candidate.map_index_filterMap_advance? (ks : List (Candidate ι)) (c : Char) :
    (ks.filterMap (·.advance? c)).map (·.index) =
      (ks.filter fun k => k.rest.head? = some c).map (·.index) := by
  induction ks with
  | nil => rfl
  | cons k ks ih =>
    rw [List.filterMap_cons, List.filter_cons, Candidate.advance?]
    cases k.rest with
    | nil => simpa using ih
    | cons d rest => by_cases hd : d = c <;> simp [hd, ih]

theorem Search.Placed.start (g : Grammar ι) : (start g).Placed g :=
  fun _ hk => .of_mem_initial hk

theorem Search.Placed.advance {g : Grammar ι} {s : Search ι} (h : s.Placed g) (c : Char) :
    (s.advance c).Placed g := by
  intro j hj
  obtain ⟨⟨k, hk, ha⟩, -⟩ := mem_viable_advance.1 hj
  rw [text_advance, List.reverse_cons]
  exact (h k hk).advance? ha

namespace Attempt

def of (s : Search ι) : Attempt :=
  ⟨s.text.reverse, s.viable.map (·.index), s.best.map fun (k, text) => (k.index, text.length)⟩

theorem of_start (g : Grammar ι) : of (.start g) = start g := rfl

theorem viable_of_eq_nil_iff {s : Search ι} : (of s).viable = [] ↔ s.viable = [] :=
  List.map_eq_nil_iff

variable {g : Grammar ι} {s : Search ι}

theorem advance?_of (hs : s.Placed g) (ho : s.Ongoing) (c : Char) :
    (of s).advance? g c = some (of (s.advance c)) := by
  have hreached : ∀ k ∈ s.viable.filterMap (·.advance? c), k.Placed g (c :: s.text).reverse := by
    intro k hk
    obtain ⟨j, hj, ha⟩ := List.mem_filterMap.1 hk
    rw [List.reverse_cons]
    exact (hs j hj).advance? ha
  -- the second and the third pass go over what the first has kept, one character further
  have hlen : (c :: s.text).reverse.length = s.text.reverse.length + 1 := by simp
  have hreads := filterM_map fun k hk => (hs k hk).reads?_eq (ho k hk) c
  have hends := findM?_map fun k hk => (hreached k hk).endsAt?_eq
  have hexceeds := filterM_map fun k hk => (hreached k hk).exceeds?_eq
  rw [hlen] at hends hexceeds
  rw [← Candidate.map_index_filterMap_advance?] at hreads
  rw [advance?, of]
  simp only [hreads, hends, hexceeds, Option.bind_eq_bind, Option.bind_some, of, Search.advance,
    Option.map_or, Option.map_map, List.reverse_cons]
  rw [List.length_reverse]
  rfl

variable [Source σ Char]

def ofRun (out : Except StreamError (Search ι) × Channel σ Char) :
    Except StreamError Attempt × Channel σ Char := (out.1.map of, out.2)

omit [Source σ Char] in
theorem ofRun_ok (s : Search ι) (c : Channel σ Char) : ofRun (.ok s, c) = (.ok (of s), c) := rfl

theorem run?_of (hs : s.Placed g) (ho : s.Ongoing) {c : Channel σ Char} {v : Stack σ Char}
    {capacity n : Nat} (h : c.Refines v capacity n) :
    (of s).run? g c = some (ofRun (s.run c)) := by
  induction s, c using Search.run.induct generalizing v n with
  | case1 s c hv =>
    rw [run?, dif_pos (viable_of_eq_nil_iff.2 hv), Search.run, dif_pos hv]
    rfl
  | case2 s c hv e d hr =>
    rw [run?, dif_neg (mt viable_of_eq_nil_iff.1 hv), h.read?_eq, Search.run, dif_neg hv, hr]
    rfl
  | case3 s c hv d hr =>
    rw [run?, dif_neg (mt viable_of_eq_nil_iff.1 hv), h.read?_eq, Search.run, dif_neg hv, hr]
    rfl
  | case4 s c hv u d hr ih =>
    obtain ⟨-, href⟩ := h.of_read hr
    have hnext := advance?_of hs ho u
    have hrest := ih (hs.advance u) (.advance s u) href
    rw [run?, dif_neg (mt viable_of_eq_nil_iff.1 hv), h.read?_eq, Search.run, dif_neg hv, hr]
    dsimp only
    split
    · next hn => rw [hnext] at hn; cases hn
    · next hn =>
      rw [hnext] at hn
      cases hn
      exact hrest

variable {us : List Char}

theorem scratch_after (g : Grammar ι) (us : List Char) : (of (.after g us)).scratch = us := by
  rw [of, Search.text_after, List.reverse_reverse]

theorem kept_after (h : us ≠ []) : (of (.after g us)).kept = (g.first us).text.length := by
  cases us with
  | nil => exact absurd rfl h
  | cons c cs =>
    rw [kept, of, Search.best_after, Grammar.first, Grammar.lead?_eq_find?]
    cases g.initial.find? (·.alternative.literal.isPrefixOf (c :: cs)) with
    | none => rfl
    | some k => simp [Outcome.text, Alternative.text]

theorem surplus?_after (h : us ≠ []) :
    (of (.after g us)).surplus? = some (us.drop (g.first us).text.length) := by
  rw [surplus?, scratch_after, kept_after h, from?, if_pos (g.text_first_isPrefix us).length_le]

theorem outcome?_after (h : us ≠ []) :
    (of (.after g us)).outcome? g = some (g.first us) := by
  cases us with
  | nil => exact absurd rfl h
  | cons c cs =>
    have hscratch := scratch_after g (c :: cs)
    rw [outcome?, hscratch, of, Search.best_after, Grammar.first, Grammar.lead?_eq_find?]
    cases hf : g.initial.find? (·.alternative.literal.isPrefixOf (c :: cs)) with
    | none => rfl
    | some k =>
      have hprefix : k.alternative.literal <+: c :: cs :=
        List.isPrefixOf_iff_prefix.1 (by simpa using List.find?_some hf)
      have hplaced := Candidate.Placed.of_mem_initial (List.mem_of_find?_eq_some hf)
      have htext : upTo? (c :: cs) k.alternative.literal.reverse.length =
          some k.alternative.literal := by
        rw [upTo?, List.length_reverse, if_pos hprefix.length_le,
          ← List.prefix_iff_eq_take.1 hprefix]
      simp only [Option.map_some, htext, hplaced.1, Option.bind_eq_bind, Option.bind_some]
      rfl

end Attempt

namespace Lexer

variable {g : Grammar ι} {s : σ} {l : Lexer σ ι}

theorem create?_eq (g : Grammar ι) (s : σ) : create? g s = some (create g s) := by
  rw [create?, sub?_of_le g.maxLength_pos]
  rfl

variable [Source σ Char]

theorem close?_eq (h : l.Valid) : l.close? = some l.close := by
  obtain ⟨v, hv⟩ := h
  rw [close?, hv.close?_eq]
  rfl

theorem nextToken?_eq (h : l.Valid) : l.nextToken? = some l.nextToken := by
  obtain ⟨v, hv⟩ := h
  obtain ⟨c, hrun, hc, -⟩ := run_start hv
  have hrun? := Attempt.run?_of (.start l.grammar) (.start l.grammar) hv
  rw [Attempt.of_start, hrun] at hrun?
  rw [nextToken?, nextToken, hrun?, hrun]
  cases l.channel.isClosed with
  | true => rfl
  | false =>
    cases l.pending with
    | cons t pending => rfl
    | nil =>
      cases hf : (l.grammar.ahead v).fault with
      | some e => simp only [Scan.answer, hf]; rfl
      | none =>
        by_cases hu : (l.grammar.ahead v).units = []
        · simp only [Scan.answer, hf, hu]; rfl
        · have hempty : (l.grammar.ahead v).units.isEmpty = false := by simpa using hu
          have hunread := fun us => (hc.mono (Nat.zero_le _)).unread?_eq us
          simp only [Scan.answer, hf, Attempt.ofRun_ok, Attempt.scratch_after, hempty,
            Attempt.surplus?_after hu, Attempt.outcome?_after hu, hunread,
            Search.verdict_after _ hu, Search.surplus_after, Bool.false_eq_true, if_false,
            Option.bind_eq_bind, Option.bind_some]
          cases c.unread ((l.grammar.ahead v).units.drop
            (l.grammar.first (l.grammar.ahead v).units).text.length).reverse with
          | mk answer d => cases answer <;> rfl

end Lexer

end Munch
