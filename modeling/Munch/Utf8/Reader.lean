import Munch.Source
import Munch.Text.Json
import Munch.Utf8

/-! A source of characters over bytes that arrive in chunks, with failures between them. A chunk
boundary may fall inside a character. Interruptions are overcome by asking again. -/

namespace Munch.Utf8

/-- What a request for more bytes brings. An empty chunk is the end, for that one request. -/
inductive Serving
  | chunk (bytes : List UInt8)
  | failure (cause : IoError)
  deriving DecidableEq

def Serving.size : Serving → Nat
  | .chunk bytes => bytes.length
  | .failure _ => 0

def total : List Serving → Nat
  | [] => 0
  | s :: ss => s.size + total ss

structure Feed where
  bytes : List UInt8
  servings : List Serving

namespace Feed

def remaining (f : Feed) : Nat := f.bytes.length + total f.servings

def serve : List Serving → Except IoError (Option UInt8) × Feed
  | [] => (.ok none, ⟨[], []⟩)
  | .chunk [] :: servings => (.ok none, ⟨[], servings⟩)
  | .chunk (b :: bytes) :: servings => (.ok (some b), ⟨bytes, servings⟩)
  | .failure e :: servings =>
    if e.kind = .interrupted then serve servings else (.error e, ⟨[], servings⟩)

def nextByte (f : Feed) : Except IoError (Option UInt8) × Feed :=
  match f.bytes with
  | b :: bytes => (.ok (some b), { f with bytes })
  | [] => serve f.servings

def takeTail : Nat → Feed → Except IoError (List UInt8) × Feed
  | 0, f => (.ok [], f)
  | n + 1, f =>
    match f.nextByte with
    | (.error e, f) => (.error e, f)
    | (.ok none, f) => (.error ⟨.unexpectedEnd, "truncated UTF-8 sequence"⟩, f)
    | (.ok (some b), f) =>
      let (tail, f) := takeTail n f
      (tail.map (b :: ·), f)

def next (f : Feed) : Reply Char × Feed :=
  match f.nextByte with
  | (.error e, f) => (.failed e, f)
  | (.ok none, f) => (.ended, f)
  | (.ok (some lead), f) =>
    match width? lead with
    | none =>
      let digits := String.ofList (Text.Json.twoDigits lead.toNat)
      (.failed ⟨.invalidData, "invalid UTF-8 lead byte 0x" ++ digits⟩, f)
    | some width =>
      match f.takeTail (width - 1) with
      | (.error e, f) => (.failed e, f)
      | (.ok tail, f) =>
        match decode lead tail with
        | .ok c => (.unit c, f)
        | .error n =>
          (.failed ⟨.invalidData, s!"invalid utf-8 sequence of {n} bytes from index 0"⟩, f)

theorem remaining_serve (ss : List Serving) :
    (serve ss).2.remaining ≤ total ss ∧
      ∀ b, (serve ss).1 = .ok (some b) → (serve ss).2.remaining < total ss := by
  fun_induction serve ss with
  | case1 => simp [remaining, total]
  | case2 => simp [remaining, total, Serving.size]
  | case3 => simp [remaining, total, Serving.size]
  | case4 e ss h ih => simpa [total, Serving.size] using ih
  | case5 => simp [remaining, total, Serving.size]

theorem remaining_nextByte (f : Feed) :
    f.nextByte.2.remaining ≤ f.remaining ∧
      ∀ b, f.nextByte.1 = .ok (some b) → f.nextByte.2.remaining < f.remaining := by
  unfold nextByte
  split
  · next h => simp [remaining, h]
  · next h => simpa [remaining, h] using remaining_serve f.servings

theorem remaining_takeTail_le (n : Nat) (f : Feed) :
    (f.takeTail n).2.remaining ≤ f.remaining := by
  induction n generalizing f with
  | zero => simp [takeTail]
  | succ n ih =>
    have hb := f.remaining_nextByte.1
    unfold takeTail
    split
    · next h => rwa [h] at hb
    · next h => rwa [h] at hb
    · next f' h =>
      rw [h] at hb
      exact Nat.le_trans (ih f') hb

theorem remaining_next (f : Feed) :
    f.next.2.remaining ≤ f.remaining ∧
      ∀ c, f.next.1 = .unit c → f.next.2.remaining < f.remaining := by
  have hb := f.remaining_nextByte
  unfold next
  split
  · next h => rw [h] at hb; simpa using hb.1
  · next h => rw [h] at hb; simpa using hb.1
  · next lead f' h =>
    rw [h] at hb
    have hlt : f'.remaining < f.remaining := hb.2 lead rfl
    split
    · simpa using hb.1
    · next width hw =>
      have ht := f'.remaining_takeTail_le (width - 1)
      split
      · next h => rw [h] at ht; simp at ht ⊢; omega
      · next h =>
        rw [h] at ht
        split <;> simp at ht ⊢ <;> omega

end Feed

structure Reader where
  feed : Option Feed

namespace Reader

def ofServings (servings : List Serving) : Reader := ⟨some ⟨[], servings⟩⟩

def isClosed (r : Reader) : Bool := r.feed.isNone

instance : FiniteSource Reader Char where
  next r :=
    match r.feed with
    | none => (.failed ⟨.other, "source is closed"⟩, r)
    | some feed =>
      let (reply, feed) := feed.next
      (reply, ⟨some feed⟩)
  close _ := (none, ⟨none⟩)
  remaining r := r.feed.elim 0 Feed.remaining
  remaining_next_le r := by
    cases h : r.feed with
    | none => simp [h]
    | some feed => simpa using feed.remaining_next.1
  remaining_next_lt r c := by
    cases h : r.feed with
    | none => simp
    | some feed => simpa using feed.remaining_next.2 c

end Reader

end Munch.Utf8
