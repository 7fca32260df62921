import Munch.Proofs.Building
import Munch.Proofs.Duplicates
import Munch.Proofs.Indexed
import Munch.Proofs.Reread

namespace Munch

open Stream' (Seq)

variable {σ υ ι : Type}

theorem isPrefix_or_of_append_eq {us ws : List υ} {s t : Seq υ}
    (h : Seq.append (.ofList us) s = .append (.ofList ws) t) :
    ws <+: us ∨ ∃ u vs, ws = us ++ u :: vs ∧ s = .cons u (.append (.ofList vs) t) := by
  induction us generalizing ws with
  | nil =>
    cases ws with
    | nil => exact .inl List.nil_prefix
    | cons w ws =>
      rw [Seq.ofList_nil, Seq.nil_append, Seq.ofList_cons, Seq.cons_append] at h
      exact .inr ⟨w, ws, rfl, h⟩
  | cons u us ih =>
    cases ws with
    | nil => exact .inl List.nil_prefix
    | cons w ws =>
      rw [Seq.ofList_cons, Seq.ofList_cons, Seq.cons_append, Seq.cons_append] at h
      obtain ⟨rfl, htail⟩ := Seq.cons_injective2 h
      rcases ih htail with hp | ⟨v, vs, rfl, hs⟩
      · exact .inl (List.cons_prefix_cons.2 ⟨rfl, hp⟩)
      · exact .inr ⟨v, vs, rfl, hs⟩

def onward {α : Type} (stream : α → Seq υ) : Except StreamError (Option υ) × α → Seq υ
  | (.ok (some u), a) => .cons u (stream a)
  | _ => .nil

namespace Stack

variable [Source σ υ] {v : Stack σ υ}

def stream (v : Stack σ υ) : Seq υ := .append (.ofList v.waiting) v.upcoming

theorem stream_of_nil (hw : v.waiting = []) : v.stream = v.upcoming := by
  rw [stream, hw, Seq.ofList_nil, Seq.nil_append]

theorem Reading.stream_eq {out : Except StreamError (Option υ) × Stack σ υ} (h : v.Reading out)
    (ho : v.IsOpen) : v.stream = onward stream out := by
  cases h with
  | closed hs => exact absurd hs (ho _)
  | waiting _ hw => rw [stream, hw, Seq.ofList_cons, Seq.cons_append, onward]; rfl
  | ended hs hw => rw [stream_of_nil hw, upcoming, hs]; rfl
  | @unit u s hs hw hn =>
    have hnext := stream_of_nil (v := { v with source := s, pulled := v.pulled + 1 }) hw
    rw [stream_of_nil hw, onward, hnext, upcoming, upcoming, hs, Source.units_of_unit hn]
  | last hs hw hn => rw [stream_of_nil hw, upcoming, hs, Source.units_of_stop hn (by simp)]; rfl
  | failed hs hw hn => rw [stream_of_nil hw, upcoming, hs, Source.units_of_stop hn (by simp)]; rfl

end Stack

namespace Channel

variable [Source σ υ] {c d : Channel σ υ} {v : Stack σ υ} {capacity n : Nat} {us : List υ}

def stream (c : Channel σ υ) : Seq υ :=
  if c.isClosed then .nil else .append (.ofList c.buffer.toList) c.upcoming

def Begins (c : Channel σ υ) (us : List υ) : Prop :=
  ∃ rest : Seq υ, c.stream = .append (.ofList us) rest

namespace Refines

theorem stream_of_open (h : c.Refines v capacity n) (ho : v.IsOpen) : c.stream = v.stream := by
  rw [Channel.stream, h.isClosed_eq_false ho, if_neg Bool.false_ne_true, h.holds.toList_eq,
    (h.mono (Nat.zero_le n)).upcoming_eq, Stack.stream]

theorem stream_eq_read (h : c.Refines v capacity n) :
    c.stream = onward Channel.stream c.read := by
  cases hc : c.isClosed with
  | true =>
    rw [Channel.read, Channel.stream, if_pos hc, if_pos hc]
    rfl
  | false =>
    have ho := h.isOpen hc
    obtain ⟨d, hd, href⟩ := h.read
    rw [h.stream_of_open ho, v.reading.stream_eq ho, hd]
    cases hr : v.read with
    | mk answer w =>
      rw [hr] at href
      cases answer with
      | error e => rfl
      | ok unit =>
        cases unit with
        | none => rfl
        | some u => exact congrArg (Seq.cons u) (href.stream_of_open (.of_read hr)).symm

theorem stream_of_reads (h : c.Refines v capacity n) (hr : c.Reads us d) :
    c.stream = .append (.ofList us) d.stream := by
  induction hr generalizing v n with
  | nil => rw [Seq.ofList_nil, Seq.nil_append]
  | @cons c c' d u us hread _ ih =>
    obtain ⟨-, hnext⟩ := h.of_read hread
    rw [h.stream_eq_read, hread, onward, ih hnext, Seq.ofList_cons, Seq.cons_append]

end Refines

end Channel

namespace Grammar

/-- `is` are the places of the literals that go on behind `us`: each of them once, in the order in
which they are tried. -/
structure Viable (g : Grammar ι) (us : List Char) (is : List Nat) : Prop where
  mem_iff : ∀ i, i ∈ is ↔ ∃ a, g.alternatives[i]? = some a ∧ us <+: a.literal ∧ us ≠ a.literal
  nodup : is.Nodup
  sublist : ∃ order, IsTrialOrder g.alternatives order ∧ is.Sublist (order.map Fin.val)

/-- The longest of the literals of a kind, by the place where it is declared first and its length,
if there is one. -/
inductive Longest (g : Grammar ι) (p : List Char → Prop) : Option (Nat × Nat) → Prop
  | none : (∀ a ∈ g.alternatives, ¬ p a.literal) → Longest g p none
  | some {i : Nat} {a : Alternative ι} : g.alternatives[i]? = some a → p a.literal →
      (∀ b ∈ g.alternatives, p b.literal → b.length ≤ a.length) →
        (∀ j < i, ∀ b, g.alternatives[j]? = some b → b.literal ≠ a.literal) →
          Longest g p (some (i, a.length))

variable {g : Grammar ι} {us : List Char}

theorem Longest.congr {p q : List Char → Prop} {found : Option (Nat × Nat)}
    (h : g.Longest p found) (hpq : ∀ a ∈ g.alternatives, p a.literal ↔ q a.literal) :
    g.Longest q found := by
  cases h with
  | none hno => exact .none fun a ha => mt (hpq a ha).2 (hno a ha)
  | some hi hp hmax hfirst =>
    exact .some hi ((hpq _ (List.mem_of_getElem? hi)).1 hp)
      (fun b hb hq => hmax b hb ((hpq b hb).2 hq)) hfirst

theorem literal_ne_of_lt {i j : Nat} {a b : Alternative ι} (hi : g.alternatives[i]? = some a)
    (hr : g.repeats i = false) (hlt : j < i) (hj : g.alternatives[j]? = some b) :
    b.literal ≠ a.literal := by
  rw [repeats, hi, Option.any_some, List.any_eq_false] at hr
  have hmem : b ∈ g.alternatives.take i :=
    List.mem_of_getElem? ((List.getElem?_take_of_lt hlt).trans hj)
  simpa using hr b hmem

end Grammar

theorem Candidate.index_after (us : List Char) (k : Candidate ι) :
    ((k.after us).filter (!·.isComplete)).map (·.index) =
      if us <+: k.alternative.literal ∧ us ≠ k.alternative.literal then some k.index else none := by
  have hany := any_isComplete_after us k
  by_cases hp : us <+: k.alternative.literal
  · rw [after, if_pos hp, Option.any_some] at hany
    rw [after, if_pos hp, Option.filter_some, hany]
    by_cases heq : us = k.alternative.literal
    · simp [heq]
    · simp [heq, hp, Ne.symm heq]
  · rw [after, if_neg hp, if_neg fun h => hp h.1]
    rfl

/-- An attempt that began on `c` and stands before `d`. It knows which literals go on behind what it
has read and which is the longest that this begins with, and `d` still has all the rest. -/
structure Attempt.Tracks [Source σ Char] (g : Grammar ι) (c : Channel σ Char) (t : Attempt)
    (d : Channel σ Char) : Prop where
  viable : g.Viable t.scratch t.viable
  longest : g.Longest (· <+: t.scratch) t.best
  reads : c.Reads t.scratch d
  stream_eq : c.stream = .append (.ofList t.scratch) d.stream
  onward_eq : d.stream = onward Channel.stream d.read

namespace Attempt.Tracks

variable [Source σ Char] {g : Grammar ι} {c d : Channel σ Char} {t : Attempt}

theorem isPrefix_or_mem (h : t.Tracks g c d) {i : Nat} {a : Alternative ι}
    (hi : g.alternatives[i]? = some a) (ha : c.Begins a.literal) :
    a.literal <+: t.scratch ∨ i ∈ t.viable ∧ d.stream ≠ .nil := by
  obtain ⟨rest, hrest⟩ := ha
  rw [h.stream_eq] at hrest
  rcases isPrefix_or_of_append_eq hrest with hp | ⟨u, us, hliteral, hd⟩
  · exact .inl hp
  · have hne : t.scratch ≠ a.literal := by
      rw [hliteral]
      simp
    refine .inr ⟨(h.viable.mem_iff i).2 ⟨a, hi, ⟨u :: us, hliteral.symm⟩, hne⟩, ?_⟩
    rw [hd]
    exact Seq.cons_ne_nil

theorem longest_of_stop (h : t.Tracks g c d) (hstop : t.viable = [] ∨ d.stream = .nil) :
    g.Longest c.Begins t.best := by
  refine h.longest.congr fun a ha => ⟨?_, fun hbegins => ?_⟩
  · rintro ⟨rest, hrest⟩
    refine ⟨.append (.ofList rest) d.stream, ?_⟩
    rw [h.stream_eq, ← hrest, Seq.ofList_append, Seq.append_assoc]
  · obtain ⟨i, hi⟩ := List.getElem?_of_mem ha
    rcases h.isPrefix_or_mem hi hbegins with hp | ⟨hmem, hne⟩
    · exact hp
    · rcases hstop with hv | hd
      · rw [hv] at hmem
        cases hmem
      · exact absurd hd hne

end Attempt.Tracks

namespace Search

variable {g : Grammar ι} {us : List Char}

theorem index_viable_after (g : Grammar ι) (us : List Char) :
    (after g us).viable.map (·.index) =
      (g.initial.filter fun k =>
        us <+: k.alternative.literal ∧ us ≠ k.alternative.literal).map (·.index) := by
  rw [viable_after, reached, List.filter_filterMap, List.map_filterMap, ← List.filterMap_eq_map,
    List.filterMap_filter]
  apply List.filterMap_congr
  intro k _
  simp only [Candidate.index_after, decide_eq_true_eq, Function.comp_apply]

theorem viable_index_after (g : Grammar ι) (us : List Char) :
    g.Viable us ((after g us).viable.map (·.index)) := by
  have horder := isTrialOrder_ranking g.alternatives
  have hsublist : ((after g us).viable.map (·.index)).Sublist
      ((ranking g.alternatives).map Fin.val) := by
    rw [index_viable_after, ← g.index_initial]
    exact List.filter_sublist.map _
  have hnodup := (horder.perm.nodup_iff.2 (List.nodup_finRange _)).map Fin.val_injective
  refine ⟨fun i => ?_, hsublist.nodup hnodup, ranking g.alternatives, horder, hsublist⟩
  rw [index_viable_after]
  simp only [List.mem_map, List.mem_filter, decide_eq_true_eq]
  constructor
  · rintro ⟨k, ⟨hk, hus⟩, rfl⟩
    obtain ⟨i, hi, hki⟩ := Grammar.mem_initial.1 hk
    exact ⟨k.alternative, by rw [hki]; exact hi, hus⟩
  · rintro ⟨a, ha, hus⟩
    exact ⟨⟨i, a, a.literal⟩, ⟨Grammar.mem_initial.2 ⟨i, ha, rfl⟩, hus⟩, rfl⟩

theorem longest_best_after (g : Grammar ι) (us : List Char) :
    g.Longest (· <+: us) ((after g us).best.map fun (k, text) => (k.index, text.length)) := by
  cases hf : g.initial.find? (·.alternative.literal.isPrefixOf us) with
  | none =>
    rw [best_after, hf]
    refine .none fun a ha hp => ?_
    obtain ⟨k, hk, rfl⟩ := Grammar.exists_mem_initial ha
    exact List.find?_eq_none.1 hf k hk (List.isPrefixOf_iff_prefix.2 hp)
  | some k =>
    have hbest : (after g us).best =
        some ({ k with rest := [] }, k.alternative.literal.reverse) := by
      rw [best_after, hf]
      rfl
    obtain ⟨hplace, hrepeats⟩ := place_of_best hbest
    have hlength : k.alternative.literal.reverse.length = k.alternative.length :=
      List.length_reverse
    simp only [hbest, Option.map_some, hlength]
    refine .some hplace (List.isPrefixOf_iff_prefix.1 (by simpa using List.find?_some hf)) ?_ ?_
    · intro b hb hp
      obtain ⟨j, hj, rfl⟩ := Grammar.exists_mem_initial hb
      exact Grammar.length_le_of_find? hf hj (List.isPrefixOf_iff_prefix.2 hp)
    · exact fun j hj b hb => Grammar.literal_ne_of_lt hplace hrepeats hj hb

variable [Source σ Char]

/-- Where the iterations of a search on `c` begin: at the start, and behind each character that an
iteration has read. -/
inductive Head (g : Grammar ι) (c : Channel σ Char) : Search ι → Channel σ Char → Prop
  | start : Head g c (start g) c
  | advance {s : Search ι} {d d' : Channel σ Char} {u : Char} :
      Head g c s d → s.viable ≠ [] → d.read = (.ok (some u), d') → Head g c (s.advance u) d'

inductive Exit (g : Grammar ι) (c : Channel σ Char) :
    Except StreamError (Search ι) × Channel σ Char → Prop
  | decided {s : Search ι} {d : Channel σ Char} :
      Head g c s d → s.viable = [] → Exit g c (.ok s, d)
  | ended {s : Search ι} {d d' : Channel σ Char} :
      Head g c s d → s.viable ≠ [] → d.read = (.ok none, d') → Exit g c (.ok s, d')
  | failed {s : Search ι} {d d' : Channel σ Char} {e : StreamError} :
      Head g c s d → s.viable ≠ [] → d.read = (.error e, d') → Exit g c (.error e, d')

variable {c d : Channel σ Char} {s : Search ι} {v : Stack σ Char} {capacity n : Nat}

namespace Head

theorem run_eq (h : Head g c s d) : (Search.start g).run c = s.run d := by
  induction h with
  | start => rfl
  | @advance s d d' u _ hv hr ih =>
    have hstep : s.run d = (s.advance u).run d' := by rw [run, dif_neg hv, hr]
    rw [ih, hstep]

theorem exit (h : Head g c s d) : Exit g c (s.run d) := by
  -- from head to head, up to the one that the search stops at
  induction s, d using run.induct with
  | case1 s d hv => rw [run, dif_pos hv]; exact .decided h hv
  | case2 s d hv e d' hr => rw [run, dif_neg hv, hr]; exact .failed h hv hr
  | case3 s d hv d' hr => rw [run, dif_neg hv, hr]; exact .ended h hv hr
  | case4 s d hv u d' hr ih => rw [run, dif_neg hv, hr]; exact ih (h.advance hv hr)

theorem eq_after (h : Head g c s d) : s = after g s.text.reverse := by
  induction h with
  | start => rfl
  | advance _ _ _ ih => rw [text_advance, List.reverse_cons, after_append, ← ih]

theorem reads (h : Head g c s d) : c.Reads s.text.reverse d := by
  induction h with
  | start => exact .nil
  | advance _ _ hr ih =>
    rw [text_advance, List.reverse_cons]
    exact ih.append (.cons hr .nil)

theorem tracks (h : Head g c s d) (hc : c.Refines v capacity n) : (Attempt.of s).Tracks g c d where
  viable := by
    have hviable := viable_index_after g s.text.reverse
    rwa [← h.eq_after] at hviable
  longest := by
    have hlongest := longest_best_after g s.text.reverse
    rwa [← h.eq_after] at hlongest
  reads := h.reads
  stream_eq := hc.stream_of_reads h.reads
  onward_eq := by
    obtain ⟨w, hd, -⟩ := hc.reads h.reads
    exact hd.stream_eq_read

end Head

theorem Exit.longest (h : Exit g c (.ok s, d)) (hc : c.Refines v capacity n) :
    g.Longest c.Begins (Attempt.of s).best := by
  cases h with
  | decided hh hv => exact (hh.tracks hc).longest_of_stop (.inl (Attempt.viable_of_eq_nil_iff.2 hv))
  | ended hh _ hr =>
    refine (hh.tracks hc).longest_of_stop (.inr ?_)
    rw [(hh.tracks hc).onward_eq, hr]
    rfl

end Search

namespace Lexer

variable [Source σ Char]

/-- At the head of each iteration a search tracks the literals and the stream, and goes on from
there as the whole search does. Where it does not fail it has found the longest literal that the
stream began with, and the first place where this is declared. -/
theorem search_tracks {g : Grammar ι} {source : σ} {l : Lexer σ ι} (h : l.Reachable g source) :
    (∀ s d, Search.Head l.grammar l.channel s d →
        (Search.start l.grammar).run l.channel = s.run d ∧
          (Attempt.of s).Tracks l.grammar l.channel d) ∧
      Search.Exit l.grammar l.channel ((Search.start l.grammar).run l.channel) ∧
      ∀ s d, (Search.start l.grammar).run l.channel = (.ok s, d) →
        l.grammar.Longest l.channel.Begins (Attempt.of s).best := by
  obtain ⟨-, v, hv⟩ := h.valid
  have hexit : Search.Exit l.grammar l.channel ((Search.start l.grammar).run l.channel) :=
    Search.Head.start.exit
  refine ⟨fun s d hh => ⟨hh.run_eq, hh.tracks hv⟩, hexit, fun s d hrun => ?_⟩
  rw [hrun] at hexit
  exact hexit.longest hv

def leftOver : Lexer (List Char) Nat := (create overlapping ['b', 'a', 'b']).nextToken.2

/-- The search reads `a` again and then `b`. It ends before it can tell whether the literal at 1 is
there, and falls back to the one at 0. -/
theorem search_tracks_leftOver :
    leftOver.Reachable overlapping ['b', 'a', 'b'] ∧ leftOver.channel.buffer.toList = ['a'] ∧
      ∃ s d d', Search.Head leftOver.grammar leftOver.channel s d ∧
        Attempt.of s = ⟨['a', 'b'], [1], some (0, 1)⟩ ∧
        (Attempt.of s).Tracks leftOver.grammar leftOver.channel d ∧
        (Search.start leftOver.grammar).run leftOver.channel = (.ok s, d') ∧
        leftOver.grammar.Longest leftOver.channel.Begins (some (0, 1)) := by
  have hreach : leftOver.Reachable overlapping ['b', 'a', 'b'] := .nextToken .create
  have hbuffer : leftOver.channel.buffer.toList = ['a'] := by cbv
  have hgrammar : leftOver.grammar = overlapping := hreach.valid.1
  have hfirst : leftOver.channel.read.1 = .ok (some 'a') := by cbv
  have hsecond : leftOver.channel.read.2.read.1 = .ok (some 'b') := by cbv
  have hlast : leftOver.channel.read.2.read.2.read.1 = .ok none := by cbv
  have hstart : Attempt.of (Search.start overlapping) = ⟨[], [1, 2, 3, 0], none⟩ := by cbv
  have hone : Attempt.of ((Search.start overlapping).advance 'a') = ⟨['a'], [1], some (0, 1)⟩ := by
    cbv
  have htwo : Attempt.of (((Search.start overlapping).advance 'a').advance 'b') =
      ⟨['a', 'b'], [1], some (0, 1)⟩ := by cbv
  have hviable : ∀ {s : Search Nat} {t : Attempt}, Attempt.of s = t → t.viable ≠ [] →
      s.viable ≠ [] := by
    rintro s _ rfl
    exact mt Attempt.viable_of_eq_nil_iff.2
  have hhead : Search.Head overlapping leftOver.channel
      (((Search.start overlapping).advance 'a').advance 'b') leftOver.channel.read.2.read.2 :=
    .advance (.advance .start (hviable hstart (by simp)) (Prod.ext hfirst rfl))
      (hviable hone (by simp)) (Prod.ext hsecond rfl)
  have hread : leftOver.channel.read.2.read.2.read =
      (.ok none, leftOver.channel.read.2.read.2.read.2) := Prod.ext hlast rfl
  have hrun : (Search.start overlapping).run leftOver.channel =
      (.ok (((Search.start overlapping).advance 'a').advance 'b'),
        leftOver.channel.read.2.read.2.read.2) := by
    rw [hhead.run_eq, Search.run, dif_neg (hviable htwo (by simp)), hread]
  obtain ⟨htracks, -, hlongest⟩ := search_tracks hreach
  rw [hgrammar] at htracks hlongest ⊢
  refine ⟨hreach, hbuffer, _, _, _, hhead, htwo, (htracks _ _ hhead).2, hrun, ?_⟩
  have hbest := hlongest _ _ hrun
  rwa [htwo] at hbest

end Lexer

end Munch
