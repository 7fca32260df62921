import Mathlib.Data.List.TakeWhile
import Mathlib.Tactic.SplitIfs
import Munch.Utf8.Reader

namespace Munch.Utf8

variable {lead b : UInt8} {bs tail : List UInt8} {c : Char}

inductive Spells (v : Nat) : UInt8 → List UInt8 → Prop
  | one {lead : UInt8} : v ≤ 127 → lead.toNat = v → Spells v lead []
  | two {lead x : UInt8} : 127 < v → v ≤ 2047 →
      lead.toNat = v / 64 + 192 → x.toNat = v % 64 + 128 → Spells v lead [x]
  | three {lead x y : UInt8} : 2047 < v → v ≤ 65535 → lead.toNat = v / 4096 + 224 →
      x.toNat = v / 64 % 64 + 128 → y.toNat = v % 64 + 128 → Spells v lead [x, y]
  | four {lead x y z : UInt8} : 65535 < v → v ≤ 1114111 → lead.toNat = v / 262144 + 240 →
      x.toNat = v / 4096 % 64 + 128 → y.toNat = v / 64 % 64 + 128 → z.toNat = v % 64 + 128 →
        Spells v lead [x, y, z]

theorem toNat_ofNat (n : Nat) : (UInt8.ofNat n).toNat = n % 256 := UInt8.toNat_ofNat'

theorem ofNat_eq_iff {n : Nat} : UInt8.ofNat n = b ↔ n % 256 = b.toNat := by
  rw [← UInt8.toNat_inj, toNat_ofNat]

theorem spells_iff : Spells c.val.toNat lead tail ↔ String.utf8EncodeChar c = lead :: tail := by
  have hvalid : c.val.toNat.isValidChar := c.valid
  rw [String.utf8EncodeChar]
  generalize c.val.toNat = v at hvalid ⊢
  simp only [Nat.isValidChar] at hvalid
  constructor
  · intro h
    cases h with
    | one hv hlead =>
      rw [if_pos hv]
      simp only [List.cons.injEq, ofNat_eq_iff, and_true]
      omega
    | two hl hv hlead hx =>
      rw [if_neg (by omega), if_pos hv]
      simp only [List.cons.injEq, ofNat_eq_iff, and_true]
      omega
    | three hl hv hlead hx hy =>
      rw [if_neg (by omega), if_neg (by omega), if_pos hv]
      simp only [List.cons.injEq, ofNat_eq_iff, and_true]
      omega
    | four hl hv hlead hx hy hz =>
      rw [if_neg (by omega), if_neg (by omega), if_neg (by omega)]
      simp only [List.cons.injEq, ofNat_eq_iff, and_true]
      omega
  · intro h
    split_ifs at h with hone htwo hthree <;> obtain ⟨rfl, rfl⟩ := List.cons.inj h
    · exact .one hone (by rw [toNat_ofNat]; omega)
    · exact .two (by omega) htwo (by rw [toNat_ofNat]; omega) (by rw [toNat_ofNat]; omega)
    · exact .three (by omega) hthree (by rw [toNat_ofNat]; omega) (by rw [toNat_ofNat]; omega)
        (by rw [toNat_ofNat]; omega)
    · exact .four (by omega) (by omega) (by rw [toNat_ofNat]; omega) (by rw [toNat_ofNat]; omega)
        (by rw [toNat_ofNat]; omega) (by rw [toNat_ofNat]; omega)

theorem isContinuation_iff : isContinuation b = true ↔ 128 ≤ b.toNat ∧ b.toNat ≤ 191 := by
  rw [isContinuation, Bool.and_eq_true, decide_eq_true_eq, decide_eq_true_eq,
    UInt8.le_iff_toNat_le, UInt8.le_iff_toNat_le]
  rfl

theorem isSecond_iff : isSecond lead b = true ↔ (128 ≤ b.toNat ∧ b.toNat ≤ 191) ∧
    (lead.toNat = 224 → 160 ≤ b.toNat) ∧ (lead.toNat = 237 → b.toNat ≤ 159) ∧
      (lead.toNat = 240 → 144 ≤ b.toNat) ∧ (lead.toNat = 244 → b.toNat ≤ 143) := by
  have h : ∀ n : UInt8, lead = n ↔ lead.toNat = n.toNat := fun n => UInt8.toNat_inj.symm
  simp only [isSecond, isContinuation, h, Bool.and_eq_true, apply_ite (· = true), decide_eq_true_eq,
    UInt8.le_iff_toNat_le, UInt8.reduceToNat]
  split_ifs <;> omega

theorem accepted_cons_iff : accepted lead (b :: bs) = bs.length + 1 ↔
    isSecond lead b = true ∧ ∀ x ∈ bs, isContinuation x = true := by
  rw [← List.takeWhile_eq_self_iff, accepted]
  split
  · next hb =>
    rw [Nat.add_comm, Nat.succ_inj, and_iff_right hb]
    exact ⟨(List.takeWhile_prefix _).eq_of_length, congrArg _⟩
  · next hb => simp [hb]

theorem width?_eq_some_iff {n : Nat} : width? lead = some n ↔
    n = 1 ∧ lead.toNat ≤ 127 ∨ n = 2 ∧ 194 ≤ lead.toNat ∧ lead.toNat ≤ 223 ∨
      n = 3 ∧ 224 ≤ lead.toNat ∧ lead.toNat ≤ 239 ∨
      n = 4 ∧ 240 ≤ lead.toNat ∧ lead.toNat ≤ 244 := by
  simp only [width?, Bool.and_eq_true, decide_eq_true_eq, UInt8.le_iff_toNat_le, UInt8.reduceToNat]
  split_ifs <;> simp <;> omega

def codePoint (lead : UInt8) (tail : List UInt8) : Nat :=
  tail.foldl (fun v b => v * 64 + b.toNat % 64) (payload lead tail.length)

theorem decode_eq_ok_iff : decode lead tail = .ok c ↔
    accepted lead tail = tail.length ∧ c = .ofNat (codePoint lead tail) := by
  rw [decode]
  split
  · next h => rw [and_iff_right h, Except.ok.injEq, eq_comm]; rfl
  · next h => simp [h]

theorem spells_iff_accepted {v : Nat} : v.isValidChar ∧ Spells v lead tail ↔
    width? lead = some (tail.length + 1) ∧ accepted lead tail = tail.length ∧
      codePoint lead tail = v := by
  rw [width?_eq_some_iff]
  constructor
  · rintro ⟨hvalid, h⟩
    simp only [Nat.isValidChar] at hvalid
    cases h with
    | one hv hlead => exact ⟨.inl ⟨rfl, by omega⟩, rfl, hlead⟩
    | @two x hl hv hlead hx =>
      have hsecond : isSecond lead x = true := isSecond_iff.2 (by omega)
      refine ⟨.inr (.inl ⟨rfl, by omega⟩), accepted_cons_iff.2 ⟨hsecond, nofun⟩, ?_⟩
      simp only [codePoint, payload, List.length_cons, List.length_nil, List.foldl]
      omega
    | @three x y hl hv hlead hx hy =>
      have hsecond : isSecond lead x = true := isSecond_iff.2 (by omega)
      have hthird : isContinuation y = true := isContinuation_iff.2 (by omega)
      refine ⟨.inr (.inr (.inl ⟨rfl, by omega⟩)),
        accepted_cons_iff.2 ⟨hsecond, List.forall_mem_singleton.2 hthird⟩, ?_⟩
      simp only [codePoint, payload, List.length_cons, List.length_nil, List.foldl]
      omega
    | @four x y z hl hv hlead hx hy hz =>
      have hsecond : isSecond lead x = true := isSecond_iff.2 (by omega)
      have hthird : isContinuation y = true := isContinuation_iff.2 (by omega)
      have hfourth : isContinuation z = true := isContinuation_iff.2 (by omega)
      refine ⟨.inr (.inr (.inr ⟨rfl, by omega⟩)), accepted_cons_iff.2
        ⟨hsecond, List.forall_mem_cons.2 ⟨hthird, List.forall_mem_singleton.2 hfourth⟩⟩, ?_⟩
      simp only [codePoint, payload, List.length_cons, List.length_nil, List.foldl]
      omega
  · rintro ⟨hw, ha, rfl⟩
    match tail with
    | [] =>
      have hlead : lead.toNat ≤ 127 := by simp only [List.length_nil] at hw; omega
      exact ⟨.inl (Nat.lt_of_le_of_lt hlead (by decide)), .one hlead rfl⟩
    | [x] =>
      have hlead : 194 ≤ lead.toNat ∧ lead.toNat ≤ 223 := by
        simp only [List.length_cons, List.length_nil] at hw
        omega
      have hx := isSecond_iff.1 (accepted_cons_iff.1 ha).1
      simp only [codePoint, payload, List.length_cons, List.length_nil, List.foldl,
        Nat.isValidChar]
      clear hw ha
      exact ⟨by omega, .two (by omega) (by omega) (by omega) (by omega)⟩
    | [x, y] =>
      have hlead : 224 ≤ lead.toNat ∧ lead.toNat ≤ 239 := by
        simp only [List.length_cons, List.length_nil] at hw
        omega
      obtain ⟨hx, hy⟩ := accepted_cons_iff.1 ha
      simp only [isSecond_iff, List.forall_mem_singleton, isContinuation_iff] at hx hy
      simp only [codePoint, payload, List.length_cons, List.length_nil, List.foldl,
        Nat.isValidChar]
      clear hw ha
      exact ⟨by omega, .three (by omega) (by omega) (by omega) (by omega) (by omega)⟩
    | [x, y, z] =>
      have hlead : 240 ≤ lead.toNat ∧ lead.toNat ≤ 244 := by
        simp only [List.length_cons, List.length_nil] at hw
        omega
      obtain ⟨hx, hyz⟩ := accepted_cons_iff.1 ha
      simp only [isSecond_iff, List.forall_mem_cons, isContinuation_iff] at hx hyz
      simp only [codePoint, payload, List.length_cons, List.length_nil, List.foldl,
        Nat.isValidChar]
      clear hw ha
      exact ⟨by omega, .four (by omega) (by omega) (by omega) (by omega) (by omega) (by omega)⟩
    | x :: y :: z :: w :: tail =>
      simp only [List.length_cons] at hw
      omega

theorem val_ofNat {n : Nat} (h : n.isValidChar) : (Char.ofNat n).val.toNat = n := by
  rw [Char.ofNat, dif_pos h]
  rfl

theorem decode_iff : width? lead = some (tail.length + 1) ∧ decode lead tail = .ok c ↔
    String.utf8EncodeChar c = lead :: tail := by
  rw [← spells_iff, decode_eq_ok_iff]
  constructor
  · rintro ⟨hw, ha, rfl⟩
    obtain ⟨hvalid, h⟩ := spells_iff_accepted.2 ⟨hw, ha, rfl⟩
    rwa [val_ofNat hvalid]
  · intro h
    obtain ⟨hw, ha, hv⟩ := spells_iff_accepted.1 ⟨c.valid, h⟩
    exact ⟨hw, ha, by rw [hv]; exact c.ofNat_toNat.symm⟩

theorem cons_eq_append_iff : lead :: bs = String.utf8EncodeChar c ++ tail ↔
    ∃ n, width? lead = some (n + 1) ∧ n ≤ bs.length ∧ decode lead (bs.take n) = .ok c ∧
      bs.drop n = tail := by
  constructor
  · intro h
    cases hc : String.utf8EncodeChar c with
    | nil => exact absurd hc String.utf8EncodeChar_ne_nil
    | cons x xs =>
      rw [hc, List.cons_append] at h
      obtain ⟨rfl, rfl⟩ := List.cons.inj h
      obtain ⟨hw, hd⟩ := decode_iff.2 hc
      refine ⟨xs.length, hw, by simp, ?_, by simp⟩
      rwa [List.take_left]
  · rintro ⟨n, hw, hn, hd, rfl⟩
    have hlen : (bs.take n).length = n := List.length_take_of_le hn
    rw [decode_iff.1 ⟨by rw [hlen]; exact hw, hd⟩, List.cons_append, List.take_append_drop]

def encode (w : List Char) : List UInt8 := w.flatMap String.utf8EncodeChar

/-- No character's encoding comes first. -/
def Stuck (bs : List UInt8) : Prop := ∀ c, ¬ String.utf8EncodeChar c <+: bs

theorem encode_cons (c : Char) (w : List Char) :
    encode (c :: w) = String.utf8EncodeChar c ++ encode w := List.flatMap_cons

theorem encode_append (v w : List Char) : encode (v ++ w) = encode v ++ encode w :=
  List.flatMap_append

theorem stuck_nil : Stuck [] := by
  intro c h
  exact String.utf8EncodeChar_ne_nil (List.prefix_nil.1 h)

theorem encodeChar_append_inj {c d : Char} (h : String.utf8EncodeChar c ++ bs =
    String.utf8EncodeChar d ++ tail) : c = d ∧ bs = tail := by
  cases hc : String.utf8EncodeChar c ++ bs with
  | nil => exact absurd (List.append_eq_nil_iff.1 hc).1 String.utf8EncodeChar_ne_nil
  | cons x xs =>
    obtain ⟨n, hw, -, hd, rfl⟩ := cons_eq_append_iff.1 hc.symm
    obtain ⟨m, hw', -, hd', rfl⟩ := cons_eq_append_iff.1 (hc.symm.trans h)
    rw [hw] at hw'
    cases hw'
    rw [hd] at hd'
    cases hd'
    exact ⟨rfl, rfl⟩

theorem exists_stuck (bs : List UInt8) : ∃ w r, encode w ++ r = bs ∧ Stuck r := by
  induction hl : bs.length using Nat.strong_induction_on generalizing bs with
  | _ l ih =>
    by_cases hs : Stuck bs
    · exact ⟨[], bs, rfl, hs⟩
    · simp only [Stuck, not_forall, not_not] at hs
      obtain ⟨c, tail, rfl⟩ := hs
      have hlt : tail.length < l := by
        have hpos := List.length_pos_iff.2 (String.utf8EncodeChar_ne_nil (c := c))
        rw [List.length_append] at hl
        omega
      obtain ⟨w, r, rfl, hr⟩ := ih _ hlt tail rfl
      exact ⟨c :: w, r, by rw [encode_cons, List.append_assoc], hr⟩

theorem isPrefix_of_stuck {v w : List Char} {s r : List UInt8} (hr : Stuck r)
    (h : encode v ++ s = encode w ++ r) : v <+: w := by
  induction v generalizing w with
  | nil => exact List.nil_prefix
  | cons c v ih =>
    rw [encode_cons, List.append_assoc] at h
    cases w with
    | nil => exact absurd ⟨_, h⟩ (hr c)
    | cons d w =>
      rw [encode_cons, List.append_assoc] at h
      obtain ⟨rfl, hrest⟩ := encodeChar_append_inj h
      exact List.cons_prefix_cons.2 ⟨rfl, ih hrest⟩

theorem encode_eq_append_iff {t w : List Char} {r : List UInt8} (hr : Stuck r) :
    encode t = encode w ++ r ↔ t = w ∧ r = [] := by
  constructor
  · intro h
    have ht : t <+: w := isPrefix_of_stuck hr ((List.append_nil _).trans h)
    have hw : w <+: t := isPrefix_of_stuck stuck_nil (h.symm.trans (List.append_nil _).symm)
    obtain rfl := ht.eq_of_length_le hw.length_le
    exact ⟨rfl, List.append_right_eq_self.1 h.symm⟩
  · rintro ⟨rfl, rfl⟩
    exact (List.append_nil _).symm

theorem isPrefix_of_encode {v w : List Char} {r : List UInt8} (hr : Stuck r)
    (h : encode v <+: encode w ++ r) : v <+: w := by
  obtain ⟨s, hs⟩ := h
  exact isPrefix_of_stuck hr hs

theorem isValidUTF8_iff : bs.toByteArray.IsValidUTF8 ↔ ∃ w, encode w = bs := by
  constructor
  · rintro ⟨w, hw⟩
    exact ⟨w, List.toByteArray_inj.1 hw.symm⟩
  · rintro ⟨w, rfl⟩
    exact ⟨w, rfl⟩

theorem isValidUTF8_append_iff {w : List Char} {r : List UInt8} (hr : Stuck r) :
    (encode w ++ r).toByteArray.IsValidUTF8 ↔ r = [] := by
  simp only [isValidUTF8_iff, encode_eq_append_iff hr, exists_eq_left]

end Munch.Utf8
