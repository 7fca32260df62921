import Munch.Proofs.Decoding

namespace Munch.Utf8

variable {lead : UInt8} {bs more t : List UInt8}

/-- More bytes could make UTF-8 of these. -/
def Truncated (t : List UInt8) : Prop := ∃ w, t <+: encode w ∧ t ≠ encode w

theorem accepted_of_append (h : accepted lead (bs ++ more) = (bs ++ more).length) :
    accepted lead bs = bs.length := by
  cases bs with
  | nil => rfl
  | cons x bs =>
    obtain ⟨hx, hall⟩ := accepted_cons_iff.1 h
    exact accepted_cons_iff.2 ⟨hx, (List.forall_mem_append.1 hall).1⟩

theorem exists_isSecond (lead : UInt8) : ∃ x, isSecond lead x = true := by
  by_cases h : lead = 0xe0
  · exact ⟨0xa0, by subst h; decide⟩
  · by_cases h' : lead = 0xf0
    · exact ⟨0x90, by subst h'; decide⟩
    · refine ⟨0x80, isSecond_iff.2 ?_⟩
      simp only [← UInt8.toNat_inj, UInt8.reduceToNat] at h h' ⊢
      omega

theorem exists_accepted_append (h : accepted lead bs = bs.length) (n : Nat) :
    ∃ more, more.length = n ∧ accepted lead (bs ++ more) = (bs ++ more).length := by
  induction n generalizing bs with
  | zero => exact ⟨[], rfl, by rwa [List.append_nil]⟩
  | succ n ih =>
    have hnext : ∃ x, accepted lead (bs ++ [x]) = (bs ++ [x]).length := by
      cases bs with
      | nil =>
        obtain ⟨x, hx⟩ := exists_isSecond lead
        exact ⟨x, accepted_cons_iff.2 ⟨hx, nofun⟩⟩
      | cons y bs =>
        obtain ⟨hy, hall⟩ := accepted_cons_iff.1 h
        exact ⟨0x80, accepted_cons_iff.2
          ⟨hy, List.forall_mem_append.2 ⟨hall, List.forall_mem_singleton.2 rfl⟩⟩⟩
    obtain ⟨x, hx⟩ := hnext
    obtain ⟨more, hlen, hmore⟩ := ih hx
    exact ⟨x :: more, congrArg (· + 1) hlen, by rwa [List.append_assoc] at hmore⟩

theorem stuck_of_short (h : Short (lead :: bs)) : Stuck (lead :: bs) := by
  obtain ⟨n, hw, hlt⟩ := h
  rintro c ⟨more, hmore⟩
  obtain ⟨m, hw', hm, -⟩ := cons_eq_append_iff.1 hmore.symm
  rw [hw] at hw'
  cases hw'
  omega

theorem Truncated.exists_char (ht : Truncated t) (hs : Stuck t) :
    ∃ c, t <+: String.utf8EncodeChar c ∧ t ≠ String.utf8EncodeChar c := by
  obtain ⟨w, hw, hne⟩ := ht
  cases w with
  | nil => exact absurd (List.prefix_nil.1 hw) hne
  | cons c w =>
    rw [encode_cons] at hw
    refine ⟨c, ?_, fun h => hs c (h ▸ List.prefix_refl _)⟩
    rcases List.prefix_or_prefix_of_prefix hw (List.prefix_append _ _) with hp | hp
    · exact hp
    · exact absurd hp (hs c)

theorem truncated_iff (hs : Stuck (lead :: bs)) :
    Truncated (lead :: bs) ↔ Short (lead :: bs) ∧ accepted lead bs = bs.length := by
  constructor
  · intro ht
    obtain ⟨c, ⟨more, hmore⟩, hne⟩ := ht.exists_char hs
    obtain ⟨hw, hd⟩ : width? lead = some ((bs ++ more).length + 1) ∧ _ := decode_iff.2 hmore.symm
    have hpos : more ≠ [] := by
      rintro rfl
      exact hne (by rwa [List.append_nil] at hmore)
    have hlen := List.length_pos_iff.2 hpos
    exact ⟨⟨_, hw, by rw [List.length_append]; omega⟩,
      accepted_of_append (decode_eq_ok_iff.1 hd).1⟩
  · rintro ⟨⟨n, hw, hn⟩, ha⟩
    obtain ⟨more, hlen, hmore⟩ := exists_accepted_append ha (n - (bs.length + 1))
    have hwidth : width? lead = some ((bs ++ more).length + 1) := by
      rw [hw, List.length_append, hlen]
      exact congrArg some (by omega)
    have hc := decode_iff.1 ⟨hwidth, decode_eq_ok_iff.2 ⟨hmore, rfl⟩⟩
    have henc : encode [_] = lead :: bs ++ more := (List.append_nil _).trans hc
    refine ⟨_, henc ▸ List.prefix_append _ _, fun heq => ?_⟩
    rw [henc, List.self_eq_append_right] at heq
    rw [heq, List.length_nil] at hlen
    omega

namespace Reader

/-- Bytes that are not UTF-8 make all of their readers fail alike, behind the text that their longest
beginning in UTF-8 encodes. They are said to end early just when the lead byte that comes there
promises more bytes than there are, and to be invalid otherwise. So an early end is what more bytes
could have completed, except where one of those behind the lead byte cannot follow it. -/
theorem failure_kind {b : List UInt8} (h : ¬ b.toByteArray.IsValidUTF8) :
    ∃ (w : List Char) (lead : UInt8) (bs : List UInt8) (e : IoError),
      encode w ++ lead :: bs = b ∧ (∀ v, encode v <+: b → v <+: w) ∧
      (∀ ss : List Serving, (∀ s ∈ ss, s.isHarmless = true) → ss.flatMap Serving.bytes = b →
        Delivers (ofServings ss) w (.failed e)) ∧
      (e.kind = .unexpectedEnd ↔ Short (lead :: bs)) ∧
      (e.kind = .invalidData ↔ ¬ Short (lead :: bs)) ∧
      (Truncated (lead :: bs) ↔ e.kind = .unexpectedEnd ∧ accepted lead bs = bs.length) := by
  obtain ⟨w, t, rfl, hs⟩ := exists_stuck b
  rw [isValidUTF8_append_iff hs] at h
  obtain ⟨lead, bs, rfl⟩ := List.exists_cons_of_ne_nil h
  obtain ⟨e, hkind, he⟩ := delivers_stuck hs h
  have hearly : e.kind = .unexpectedEnd ↔ Short (lead :: bs) := by
    rcases hkind with ⟨hk, hshort⟩ | ⟨hk, hshort⟩ <;> simp [hk, hshort]
  have hinvalid : e.kind = .invalidData ↔ ¬ Short (lead :: bs) := by
    rcases hkind with ⟨hk, hshort⟩ | ⟨hk, hshort⟩ <;> simp [hk, hshort]
  refine ⟨w, lead, bs, e, rfl, fun v => isPrefix_of_encode hs, fun ss hss hbytes => ?_, hearly,
    hinvalid, by rw [truncated_iff hs, hearly]⟩
  exact delivers_of_serves ⟨hss, hbytes⟩ he

theorem failure_kind_cut :
    ∃ e : IoError, Delivers (ofServings cut) ['a', 'é'] (.failed e) ∧ e.kind = .unexpectedEnd := by
  have hshort : Short [0xe2, 0x82] := ⟨3, rfl, by decide⟩
  have hs : Stuck [0xe2, 0x82] := stuck_of_short hshort
  have hb : ¬ (encode ['a', 'é'] ++ [0xe2, 0x82]).toByteArray.IsValidUTF8 :=
    mt (isValidUTF8_append_iff hs).1 (List.cons_ne_nil _ _)
  obtain ⟨w, lead, bs, e, hsplit, hlongest, hreaders, hearly, -⟩ := failure_kind hb
  have hw : w = ['a', 'é'] :=
    (isPrefix_of_encode hs ⟨_, hsplit⟩).eq_of_length_le
      (hlongest _ (List.prefix_append _ _)).length_le
  subst hw
  obtain ⟨rfl, rfl⟩ := List.cons.inj (List.append_cancel_left hsplit)
  exact ⟨e, hreaders cut (by decide) rfl, hearly.2 hshort⟩

/-- An opening bracket cannot follow the lead byte of three, whatever comes behind it. Yet the bytes
are said to end early, and to be invalid only if there are three of them. -/
theorem bracket_said_to_end_early :
    ¬ ([0xe2, 0x28] : List UInt8).toByteArray.IsValidUTF8 ∧
      (∀ v, encode v <+: [0xe2, 0x28] → v = []) ∧ ¬ Truncated [0xe2, 0x28] ∧
      Delivers (ofServings [.chunk [0xe2, 0x28]]) []
        (.failed ⟨.unexpectedEnd, "truncated UTF-8 sequence"⟩) ∧
      Delivers (ofServings [.chunk [0xe2, 0x28, 0x41]]) []
        (.failed ⟨.invalidData, "invalid utf-8 sequence of 1 bytes from index 0"⟩) := by
  have hs : Stuck [0xe2, 0x28] := stuck_of_short ⟨3, rfl, by decide⟩
  refine ⟨?_, ?_, ?_, .failed rfl, .failed rfl⟩
  · exact mt (isValidUTF8_append_iff (w := []) hs).1 (List.cons_ne_nil _ _)
  · exact fun v hv => List.prefix_nil.1 (isPrefix_of_encode (w := []) hs hv)
  · rw [truncated_iff hs]
    exact fun h => absurd h.2 (by decide)

end Reader

end Munch.Utf8
