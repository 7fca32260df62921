import Munch.Proofs.Step
import Munch.Proofs.Utf8

namespace Munch.Utf8

def Serving.bytes : Serving → List UInt8
  | .chunk bytes => bytes
  | .failure _ => []

def Serving.isHarmless : Serving → Bool
  | .chunk bytes => !bytes.isEmpty
  | .failure e => e.kind = .interrupted

def Short : List UInt8 → Prop
  | [] => False
  | lead :: bs => ∃ n, width? lead = some n ∧ bs.length + 1 < n

theorem short_cons_iff {lead : UInt8} {bs : List UInt8} {n : Nat}
    (hw : width? lead = some (n + 1)) : Short (lead :: bs) ↔ bs.length < n := by
  simp [Short, hw]

namespace Feed

def left (f : Feed) : List UInt8 := f.bytes ++ f.servings.flatMap Serving.bytes

/-- The feed brings the bytes `b` one by one, and then it ends. -/
structure Serves (f : Feed) (b : List UInt8) : Prop where
  harmless : ∀ s ∈ f.servings, s.isHarmless = true
  left_eq : f.left = b

theorem serves_bytes (b : List UInt8) : Serves ⟨b, []⟩ b :=
  ⟨List.forall_mem_nil _, List.append_nil b⟩

variable {f f' : Feed} {b bs : List UInt8} {lead : UInt8} {c : Char}

theorem serve_eq {ss : List Serving} (h : ∀ s ∈ ss, s.isHarmless = true) :
    ∃ f, serve ss = (.ok (ss.flatMap Serving.bytes).head?, f) ∧
      f.Serves (ss.flatMap Serving.bytes).tail := by
  fun_induction serve ss with
  | case1 => exact ⟨_, rfl, List.forall_mem_nil _, rfl⟩
  | case2 ss => exact absurd (h _ List.mem_cons_self) Bool.false_ne_true
  | case3 x bytes ss => exact ⟨_, rfl, (List.forall_mem_cons.1 h).2, rfl⟩
  | case4 e ss he ih => exact ih (List.forall_mem_cons.1 h).2
  | case5 e ss he => exact absurd (of_decide_eq_true (h _ List.mem_cons_self)) he

namespace Serves

theorem nextByte (h : f.Serves b) :
    ∃ f', f.nextByte = (.ok b.head?, f') ∧ f'.Serves b.tail := by
  obtain ⟨hs, rfl⟩ := h
  rw [left, Feed.nextByte]
  cases f.bytes with
  | nil => exact serve_eq hs
  | cons x bytes => exact ⟨_, rfl, hs, rfl⟩

theorem takeTail (h : f.Serves b) {n : Nat} (hn : n ≤ b.length) :
    ∃ f', f.takeTail n = (.ok (b.take n), f') ∧ f'.Serves (b.drop n) := by
  induction n generalizing f b with
  | zero => exact ⟨f, rfl, h⟩
  | succ n ih =>
    cases b with
    | nil => cases hn
    | cons x bs =>
      obtain ⟨f', hbyte, hnext⟩ := h.nextByte
      obtain ⟨f'', htail, hlast⟩ := ih hnext (Nat.le_of_succ_le_succ hn)
      rw [Feed.takeTail, hbyte]
      simp only [List.head?_cons, htail]
      exact ⟨f'', rfl, hlast⟩

theorem takeTail_truncated (h : f.Serves b) {n : Nat} (hn : b.length < n) :
    ∃ f', f.takeTail n = (.error ⟨.unexpectedEnd, "truncated UTF-8 sequence"⟩, f') ∧
      f'.Serves [] := by
  induction n generalizing f b with
  | zero => cases hn
  | succ n ih =>
    obtain ⟨f', hbyte, hnext⟩ := h.nextByte
    rw [Feed.takeTail, hbyte]
    cases b with
    | nil => exact ⟨f', rfl, hnext⟩
    | cons x bs =>
      obtain ⟨f'', htail, hlast⟩ := ih hnext (Nat.lt_of_succ_lt_succ hn)
      simp only [List.head?_cons, htail]
      exact ⟨f'', rfl, hlast⟩

theorem next_ended (h : f.Serves []) : ∃ f', f.next = (.ended, f') ∧ f'.Serves [] := by
  obtain ⟨f', hbyte, hnext⟩ := h.nextByte
  exact ⟨f', by rw [Feed.next, hbyte]; rfl, hnext⟩

theorem next_no_width (h : f.Serves (lead :: bs)) (hw : width? lead = none) :
    ∃ f', f.next = (.failed ⟨.invalidData,
      "invalid UTF-8 lead byte 0x" ++ .ofList (Text.Json.twoDigits lead.toNat)⟩, f') := by
  obtain ⟨f', hbyte, hnext⟩ := h.nextByte
  refine ⟨f', ?_⟩
  rw [Feed.next, hbyte]
  simp only [List.head?_cons, hw]

theorem next_truncated (h : f.Serves (lead :: bs)) {n : Nat} (hw : width? lead = some (n + 1))
    (hn : bs.length < n) :
    ∃ f', f.next = (.failed ⟨.unexpectedEnd, "truncated UTF-8 sequence"⟩, f') := by
  obtain ⟨f', hbyte, hnext⟩ := h.nextByte
  obtain ⟨f'', htail, -⟩ := hnext.takeTail_truncated hn
  refine ⟨f'', ?_⟩
  rw [Feed.next, hbyte]
  simp only [List.head?_cons, hw, Nat.add_sub_cancel, htail]

theorem next_sequence (h : f.Serves (lead :: bs)) {n : Nat} (hw : width? lead = some (n + 1))
    (hn : n ≤ bs.length) (hd : decode lead (bs.take n) = .ok c) :
    ∃ f', f.next = (.unit c, f') ∧ f'.Serves (bs.drop n) := by
  obtain ⟨f', hbyte, hnext⟩ := h.nextByte
  obtain ⟨f'', htail, hlast⟩ := hnext.takeTail hn
  refine ⟨f'', ?_, hlast⟩
  rw [Feed.next, hbyte]
  simp only [List.head?_cons, hw, Nat.add_sub_cancel, List.tail_cons, htail, hd]

theorem next_invalid (h : f.Serves (lead :: bs)) {n m : Nat} (hw : width? lead = some (n + 1))
    (hn : n ≤ bs.length) (hd : decode lead (bs.take n) = .error m) :
    ∃ f', f.next = (.failed ⟨.invalidData,
      s!"invalid utf-8 sequence of {m} bytes from index 0"⟩, f') := by
  obtain ⟨f', hbyte, hnext⟩ := h.nextByte
  obtain ⟨f'', htail, -⟩ := hnext.takeTail hn
  refine ⟨f'', ?_⟩
  rw [Feed.next, hbyte]
  simp only [List.head?_cons, hw, Nat.add_sub_cancel, List.tail_cons, htail, hd]

theorem next_unit (h : f.Serves (String.utf8EncodeChar c ++ b)) :
    ∃ f', f.next = (.unit c, f') ∧ f'.Serves b := by
  cases hc : String.utf8EncodeChar c ++ b with
  | nil => exact absurd (List.append_eq_nil_iff.1 hc).1 String.utf8EncodeChar_ne_nil
  | cons lead bs =>
    obtain ⟨n, hw, hn, hd, rfl⟩ := cons_eq_append_iff.1 hc.symm
    exact (hc ▸ h).next_sequence hw hn hd

end Serves

theorem next_stuck (hs : Stuck b) (hb : b ≠ []) :
    ∃ e : IoError, (e.kind = .unexpectedEnd ∧ Short b ∨ e.kind = .invalidData ∧ ¬ Short b) ∧
      ∀ f : Feed, f.Serves b → ∃ f', f.next = (.failed e, f') := by
  cases b with
  | nil => exact absurd rfl hb
  | cons lead bs =>
    cases hw : width? lead with
    | none => exact ⟨_, .inr ⟨rfl, by simp [Short, hw]⟩, fun f h => h.next_no_width hw⟩
    | some width =>
      obtain ⟨n, rfl⟩ : ∃ n, width = n + 1 := by
        have hpos := width?_eq_some_iff.1 hw
        exact Nat.exists_eq_add_one.2 (by omega)
      have hshort : Short (lead :: bs) ↔ bs.length < n := short_cons_iff hw
      rcases Nat.lt_or_ge bs.length n with hlt | hle
      · exact ⟨_, .inl ⟨rfl, hshort.2 hlt⟩, fun f h => h.next_truncated hw hlt⟩
      · cases hd : decode lead (bs.take n) with
        | ok c => exact absurd ⟨_, (cons_eq_append_iff.2 ⟨n, hw, hle, hd, rfl⟩).symm⟩ (hs c)
        | error m =>
          exact ⟨_, .inr ⟨rfl, mt hshort.1 (Nat.not_lt.2 hle)⟩, fun f h => h.next_invalid hw hle hd⟩

end Feed

namespace Reader

variable {f : Feed} {b : List UInt8} {w : List Char}

theorem next_eq (f : Feed) : Source.next (Reader.mk (some f)) = (f.next.1, ⟨some f.next.2⟩) := rfl

theorem series_next (h : f.Serves (encode w ++ b)) :
    ∃ f', series Source.next w.length (Reader.mk (some f)) = (w.map .unit, ⟨some f'⟩) ∧
      f'.Serves b := by
  induction w generalizing f with
  | nil => exact ⟨f, rfl, h⟩
  | cons c w ih =>
    rw [encode_cons, List.append_assoc] at h
    obtain ⟨f', hnext, hrest⟩ := h.next_unit
    obtain ⟨f'', hseries, hlast⟩ := ih hrest
    refine ⟨f'', ?_, hlast⟩
    rw [List.length_cons, series, next_eq, hnext, hseries]
    rfl

theorem delivers_of_serves {stop : Reply Char} (h : f.Serves (encode w ++ b))
    (hstop : ∀ f : Feed, f.Serves b → Delivers (Reader.mk (some f)) [] stop) :
    Delivers (Reader.mk (some f)) w stop := by
  induction w generalizing f with
  | nil => exact hstop f h
  | cons c w ih =>
    rw [encode_cons, List.append_assoc] at h
    obtain ⟨f', hnext, hrest⟩ := h.next_unit
    exact .unit (by rw [next_eq, hnext]) (ih hrest)

theorem delivers_stuck (hs : Stuck b) (hb : b ≠ []) :
    ∃ e : IoError, (e.kind = .unexpectedEnd ∧ Short b ∨ e.kind = .invalidData ∧ ¬ Short b) ∧
      ∀ f : Feed, f.Serves b → Delivers (Reader.mk (some f)) [] (.failed e) := by
  obtain ⟨e, hkind, he⟩ := Feed.next_stuck hs hb
  refine ⟨e, hkind, fun f h => ?_⟩
  obtain ⟨f', hnext⟩ := he f h
  exact .failed (by rw [next_eq, hnext])

theorem exists_stop (hs : Stuck b) : ∃ stop : Reply Char,
    (stop = .ended ∧ b = [] ∨ b ≠ [] ∧ ∃ e, stop = .failed e) ∧
      ∀ f : Feed, f.Serves b → Delivers (Reader.mk (some f)) [] stop := by
  by_cases hb : b = []
  · subst hb
    refine ⟨.ended, .inl ⟨rfl, rfl⟩, fun f h => ?_⟩
    obtain ⟨f', hnext, -⟩ := h.next_ended
    exact .ended (by rw [next_eq, hnext])
  · obtain ⟨e, -, he⟩ := delivers_stuck hs hb
    exact ⟨.failed e, .inr ⟨hb, e, rfl⟩, he⟩

def left (r : Reader) : List UInt8 := r.feed.elim [] Feed.left

/-- Readers of the same bytes deliver the same characters and stop alike, whatever chunks the bytes
come in and whatever interruptions come between these. The characters are those that the longest
beginning in UTF-8 encodes; when some are delivered, just their encodings are taken. The stop is the
end if and only if all of the bytes are UTF-8, and a failure otherwise. -/
theorem delivers_utf8 (b : List UInt8) :
    ∃ (w : List Char) (stop : Reply Char),
      encode w <+: b ∧ (∀ v, encode v <+: b → v <+: w) ∧
      (stop = .ended ↔ b.toByteArray.IsValidUTF8) ∧
      (¬ b.toByteArray.IsValidUTF8 → ∃ e, stop = .failed e) ∧
      (∀ t, encode t = b → Delivers t w stop) ∧
      ∀ ss : List Serving, (∀ s ∈ ss, s.isHarmless = true) → ss.flatMap Serving.bytes = b →
        Delivers (ofServings ss) w stop ∧
          ∀ n ≤ w.length, ∃ r : Reader,
            series Source.next n (ofServings ss) = ((w.take n).map .unit, r) ∧
              encode (w.take n) ++ r.left = b := by
  obtain ⟨w, r, rfl, hs⟩ := exists_stuck b
  obtain ⟨stop, hcases, hstop⟩ := exists_stop hs
  refine ⟨w, stop, List.prefix_append _ _, fun v => isPrefix_of_encode hs, ?_, ?_, ?_, ?_⟩
  · rw [isValidUTF8_append_iff hs]
    rcases hcases with ⟨rfl, hr⟩ | ⟨hr, e, rfl⟩
    · exact iff_of_true rfl hr
    · exact iff_of_false nofun hr
  · rw [isValidUTF8_append_iff hs]
    intro hr
    rcases hcases with ⟨-, hnil⟩ | ⟨-, he⟩
    · exact absurd hnil hr
    · exact he
  · intro t ht
    obtain ⟨rfl, hr⟩ := (encode_eq_append_iff hs).1 ht
    rcases hcases with ⟨rfl, -⟩ | ⟨hne, -⟩
    · exact delivers_list t
    · exact absurd hr hne
  · intro ss hss hbytes
    have hserves : Feed.Serves ⟨[], ss⟩ (encode w ++ r) := ⟨hss, hbytes⟩
    refine ⟨delivers_of_serves hserves hstop, fun n hn => ?_⟩
    have hsplit : encode w ++ r = encode (w.take n) ++ (encode (w.drop n) ++ r) := by
      rw [← List.append_assoc, ← encode_append, List.take_append_drop]
    obtain ⟨f, hseries, hleft⟩ := series_next (hsplit ▸ hserves)
    rw [List.length_take_of_le hn] at hseries
    exact ⟨⟨some f⟩, hseries, by rw [hsplit, ← hleft.left_eq]; rfl⟩

def cut : List Serving :=
  [.chunk [0x61, 0xc3], .failure ⟨.interrupted, "again"⟩, .chunk [0xa9], .chunk [0xe2, 0x82]]

theorem delivers_utf8_cut :
    ∃ (w : List Char) (stop : Reply Char), Delivers (ofServings cut) w stop ∧
      encode w <+: [0x61, 0xc3, 0xa9, 0xe2, 0x82] ∧ ['a', 'é'] <+: w ∧
      ∃ r : Reader, series Source.next 1 (ofServings cut) = ((w.take 1).map .unit, r) ∧
        encode (w.take 1) ++ r.left = [0x61, 0xc3, 0xa9, 0xe2, 0x82] := by
  obtain ⟨w, stop, hw, hlongest, -, -, -, hreaders⟩ :=
    delivers_utf8 [0x61, 0xc3, 0xa9, 0xe2, 0x82]
  obtain ⟨hdelivers, hleft⟩ := hreaders cut (by decide) rfl
  have hprefix : ['a', 'é'] <+: w := hlongest ['a', 'é'] (by decide)
  exact ⟨w, stop, hdelivers, hw, hprefix,
    hleft 1 (Nat.le_trans (by decide) hprefix.length_le)⟩

end Reader

end Munch.Utf8
