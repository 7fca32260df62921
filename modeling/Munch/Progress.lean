import Munch.Lexer

namespace Munch

namespace Channel

variable {σ υ : Type}

theorem buffered_pushBack_le (c : Channel σ υ) (u : υ) :
    (c.pushBack u).2.buffered ≤ c.buffered + 1 := by
  unfold pushBack
  split
  · simp
  · split <;> simp [buffered]

@[simp] theorem source_pushBack (c : Channel σ υ) (u : υ) :
    (c.pushBack u).2.source = c.source := by
  unfold pushBack
  split
  · rfl
  · split <;> rfl

variable [FiniteSource σ υ]

def weight (c : Channel σ υ) : Nat := c.buffered + FiniteSource.remaining c.source

@[simp] theorem weight_grant (c : Channel σ υ) : c.grant.weight = c.weight := rfl

theorem weight_pushBack_le (c : Channel σ υ) (u : υ) : (c.pushBack u).2.weight ≤ c.weight + 1 := by
  have := c.buffered_pushBack_le u
  simp only [weight, source_pushBack]
  omega

theorem weight_unread_le (c : Channel σ υ) (us : List υ) :
    (c.unread us).2.weight ≤ c.weight + us.length := by
  induction us generalizing c with
  | nil => simp [unread]
  | cons u us ih =>
    have hp := c.weight_pushBack_le u
    unfold unread
    split
    · next h => rw [h] at hp; simp only [List.length_cons] at hp ⊢; omega
    · next c' h =>
      rw [h] at hp
      have := ih c'
      simp only [List.length_cons] at hp ⊢
      omega

theorem weight_read_lt {c c' : Channel σ υ} {u : υ} (h : c.read = (.ok (some u), c')) :
    c'.weight < c.weight := by
  unfold read at h
  split at h
  · simp at h
  · split at h
    · next a buffer hb =>
      obtain ⟨-, rfl⟩ := by simpa using h
      have hpos := Ring.length_pos_of_popFront (r := c.buffer) (a := a) (by rw [hb])
      have hlen := c.buffer.length_popFront
      rw [hb] at hlen
      rw [weight_grant]
      simp only [weight, buffered] at *
      omega
    · next buffer hb =>
      have hlen := c.buffer.length_popFront
      rw [hb] at hlen
      dsimp only at h
      split at h
      · simp at h
      · unfold pull at h
        split at h
        · next u' s hs =>
          obtain ⟨-, rfl⟩ := by simpa using h
          have := FiniteSource.remaining_next_lt c.source u' (by rw [hs])
          rw [hs] at this
          rw [weight_grant]
          simp only [weight, buffered] at *
          omega
        · simp at h
        · simp at h

theorem weight_read_none_le {c c' : Channel σ υ} (h : c.read = (.ok none, c')) :
    c'.weight ≤ c.weight := by
  unfold read at h
  split at h
  · simp at h
  · split at h
    · simp at h
    · next buffer hb =>
      have hlen := c.buffer.length_popFront
      rw [hb] at hlen
      dsimp only at h
      split at h
      · obtain ⟨-, rfl⟩ := by simpa using h
        simp only [weight, buffered] at *
        omega
      · unfold pull at h
        split at h
        · simp at h
        · next s hs =>
          obtain ⟨-, rfl⟩ := by simpa using h
          have := FiniteSource.remaining_next_le c.source
          rw [hs] at this
          simp only [weight, buffered] at *
          omega
        · simp at h

end Channel

variable {σ ι : Type} [FiniteSource σ Char]

theorem Search.weight_run_le {s s' : Search ι} {c c' : Channel σ Char}
    (h : s.run c = (.ok s', c')) :
    c'.weight + s'.text.length ≤ c.weight + s.text.length := by
  fun_induction run s c with
  | case1 => simp_all
  | case2 => simp_all
  | case3 s c hs c'' hr =>
    obtain ⟨rfl, rfl⟩ := by simpa using h
    have := Channel.weight_read_none_le hr
    omega
  | case4 s c hs u c'' hr ih =>
    have := Channel.weight_read_lt hr
    have := ih h
    simp only [text_advance, List.length_cons] at this
    omega

namespace Search

def BestRead (s : Search ι) : Prop :=
  ∀ k text, s.best = some (k, text) → 0 < text.length ∧ text.length ≤ s.text.length

theorem bestRead_start (g : Grammar ι) : (start g).BestRead := by
  intro k text h
  simp [start] at h

theorem BestRead.advance {s : Search ι} (h : s.BestRead) (c : Char) : (s.advance c).BestRead := by
  intro k text hb
  simp only [Search.advance, Option.or_eq_some_iff, Option.map_eq_some_iff] at hb
  rcases hb with ⟨_, _, hk⟩ | ⟨_, hb⟩
  · obtain ⟨-, rfl⟩ := by simpa using hk
    simp
  · have := h k text hb
    simp
    omega

theorem BestRead.run {s s' : Search ι} {c c' : Channel σ Char} (h : s.BestRead)
    (hr : s.run c = (.ok s', c')) : s'.BestRead := by
  fun_induction Search.run s c with
  | case1 => simp_all
  | case2 => simp_all
  | case3 => simp_all
  | case4 s c hs u c'' hc ih => exact ih (h.advance u) hr

theorem BestRead.verdict {s : Search ι} (h : s.BestRead) {o : Outcome ι} {kept : Nat}
    (hv : s.verdict = some (o, kept)) : 0 < kept ∧ kept ≤ s.text.length := by
  unfold Search.verdict at hv
  split at hv
  · next k text hb =>
    obtain ⟨-, rfl⟩ := by simpa using hv
    exact h k text hb
  · next first _ hf =>
    obtain ⟨-, rfl⟩ := by simpa using hv
    cases ht : s.text <;> simp [ht] at hf ⊢
  · simp at hv

end Search

namespace Lexer

def weight (l : Lexer σ ι) : Nat := l.pending.length + l.channel.weight

theorem weight_settle {l : Lexer σ ι} {s : Search ι} {c c' : Channel σ Char} {kept : Nat}
    {r : Except StreamError Unit} (hs : (Search.start l.grammar).run l.channel = (.ok s, c))
    (hpos : 0 < kept) (hle : kept ≤ s.text.length)
    (hc : c.unread (s.text.take (s.text.length - kept)) = (r, c')) :
    Lexer.weight { l with channel := c'.commit } < l.weight := by
  have hw := Search.weight_run_le hs
  have hu := c.weight_unread_le (s.text.take (s.text.length - kept))
  rw [hc] at hu
  simp only [weight, Channel.weight, Channel.buffered, Channel.commit, Search.text_start,
    List.length_nil, List.length_take] at *
  omega

theorem weight_nextToken_lt {l l' : Lexer σ ι} {o : Outcome ι} (h : l.nextToken = (.ok o, l'))
    (ho : o ≠ .ended) : l'.weight < l.weight := by
  unfold nextToken at h
  split at h
  · simp at h
  · split at h
    · next t pending hp =>
      obtain ⟨-, rfl⟩ := by simpa using h
      simp only [weight, hp, List.length_cons]
      omega
    · split at h
      · simp at h
      · next s channel hs =>
        split at h
        · obtain ⟨rfl, -⟩ := by simpa using h
          exact absurd rfl ho
        · next outcome kept hv =>
          have hk := ((Search.bestRead_start l.grammar).run hs).verdict hv
          split at h
          · simp at h
          · next channel' hc =>
            obtain ⟨-, rfl⟩ := by simpa using h
            exact weight_settle hs hk.1 hk.2 hc

end Lexer

end Munch
