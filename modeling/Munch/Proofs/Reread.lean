import Munch.Proofs.Allowance
import Munch.Proofs.Protocol

namespace Munch.Channel

variable {σ υ : Type}

def watch (c : Channel σ υ) : Channel (Watched σ υ) υ := c.mapSource (⟨·, []⟩)

theorem unread_cons_of_ok {c d : Channel σ υ} {u : υ} (h : c.pushBack u = (.ok (), d))
    (us : List υ) : c.unread (u :: us) = d.unread us := by
  rw [unread, h]

variable [Source σ υ] {c d e : Channel σ υ} {v : Stack σ υ} {capacity n : Nat}
  {us ws as : List υ} {u : υ}

theorem Reads.append (h : c.Reads us d) (h' : d.Reads ws e) : c.Reads (us ++ ws) e := by
  induction h with
  | nil => exact h'
  | cons hread _ ih => exact .cons hread (ih h')

theorem Reads.session_eq (h : c.Reads us d) :
    (c.session (.replicate us.length .read)).2 = d := by
  induction h with
  | nil => rfl
  | cons hread _ ih =>
    rw [List.length_cons, List.replicate_succ, session_cons, perform, hread]
    exact ih

theorem Refines.reads (h : c.Refines v capacity n) (hr : c.Reads us d) :
    ∃ w, d.Refines w capacity (n + us.length) ∧ w.waiting = v.waiting.drop us.length := by
  induction hr generalizing v n with
  | nil => exact ⟨v, h, rfl⟩
  | @cons c c' d u us hread _ ih =>
    obtain ⟨hv, hnext⟩ := h.of_read hread
    obtain ⟨w, hw, hwaiting⟩ := ih hnext
    refine ⟨w, ?_, ?_⟩
    · rw [List.length_cons, Nat.add_comm us.length, ← Nat.add_assoc]
      exact hw
    · rw [hwaiting, Stack.waiting_of_read_unit hv, List.drop_drop, Nat.add_comm, List.length_cons]

theorem read_of_stacked (ho : c.isClosed = false) (hb : c.buffer.Holds as)
    (hroom : c.allowance + as.length ≤ c.buffer.capacity) (ha : c.allowance ≠ 0) (u : υ)
    (mark : Nat) :
    read { c.stacked u with highWater := mark } = (.ok (some u), { c with highWater := mark }) := by
  have hopen : isClosed { c.stacked u with highWater := mark } = false := ho
  have hpop : (c.buffer.pushFront u).popFront = (some u, c.buffer) :=
    hb.popFront_pushFront u (by omega)
  have hlength : c.buffer.length = as.length := hb.length_eq
  have hgrant : min (c.allowance - 1 + 1) (c.buffer.capacity - c.buffer.length) = c.allowance := by
    omega
  rw [read, hopen, if_neg Bool.false_ne_true]
  simp only [stacked, hpop]
  exact Prod.ext rfl (congrArg (fun a => { c with allowance := a, highWater := mark }) hgrant)

theorem reads_of_unread (hc : c.isClosed = true → c.allowance = 0) (hb : c.buffer.Holds as)
    (hroom : c.allowance + as.length ≤ c.buffer.capacity) (hw : ws.length ≤ c.allowance) :
    ∃ e, c.unread ws = (.ok (), e) ∧ c.highWater ≤ e.highWater ∧
      e.Reads ws.reverse { c with highWater := e.highWater } := by
  -- the first unit unread is the last one read again, and the others are read before it
  induction ws generalizing c as with
  | nil => exact ⟨c, rfl, Nat.le_refl _, .nil⟩
  | cons u ws ih =>
    rw [List.length_cons] at hw
    have ha : c.allowance ≠ 0 := Nat.ne_of_gt (Nat.zero_lt_of_lt hw)
    have ho : c.isClosed = false := Bool.eq_false_iff.2 (mt hc ha)
    have hclosed : (c.stacked u).isClosed = true → (c.stacked u).allowance = 0 :=
      fun hclosed => absurd (ho.symm.trans hclosed) Bool.false_ne_true
    have hholds : (c.stacked u).buffer.Holds (u :: as) := hb.pushFront u (by omega)
    have hnext : (c.stacked u).allowance + (u :: as).length ≤ (c.stacked u).buffer.capacity := by
      simp only [stacked, Ring.capacity_pushFront, List.length_cons]
      omega
    obtain ⟨e, hunread, hmark, hreads⟩ := ih hclosed hholds hnext (Nat.le_sub_one_of_lt hw)
    refine ⟨e, (unread_cons_of_ok (pushBack_of_ne_zero ho ha) ws).trans hunread,
      Nat.le_trans (Nat.le_max_left _ _) hmark, ?_⟩
    rw [List.reverse_cons]
    exact hreads.append (.cons (read_of_stacked ho hb hroom ha u e.highWater) .nil)

/-- After any session let some units be read, and let the last `m` of them be unread, last one
first. If the channel has the capacity for them, all are taken back, and the same units are read
again in their order. No call reaches the source meanwhile, and the channel is the one it was, but
for the high water mark, which may be higher. -/
theorem unread_reread (s : σ) (capacity : Nat) (calls : List (Call υ)) {m : Nat}
    (hreads : ((create s capacity).session calls).2.Reads us d)
    (hm : m ≤ min us.length capacity) :
    ∃ e, d.unread (us.rtake m).reverse = (.ok (), e) ∧ d.highWater ≤ e.highWater ∧
      e.Reads (us.rtake m) { d with highWater := e.highWater } ∧
      e.watch.Reads (us.rtake m) (watch { d with highWater := e.highWater }) := by
  have hcreate : (create s capacity : Channel σ υ).Refines (.ofSource s) capacity 0 :=
    .create s capacity
  have href := hcreate.session calls
  obtain ⟨w, hd, hwaiting⟩ := href.reads hreads
  have hfits := hcreate.fits_session (.create s capacity)
    (calls ++ .replicate us.length .read)
  rw [session_append, hreads.session_eq] at hfits
  have hlast : (us.rtake m).length = m := by
    rw [List.rtake, List.length_drop]
    omega
  have hallowed : (us.rtake m).reverse.length ≤ d.allowance := by
    have hgranted := hd.granted
    have hroom := href.room
    rw [hwaiting, List.length_drop] at hgranted
    rw [List.length_reverse, hlast]
    omega
  have hroom := hd.room
  rw [← hd.capacity_eq] at hroom
  obtain ⟨e, hunread, hmark, hreread⟩ :=
    reads_of_unread hfits.allowance_of_closed hd.holds hroom hallowed
  obtain ⟨e', hunread', -, hreread'⟩ :=
    reads_of_unread (c := d.watch) hfits.allowance_of_closed hd.holds hroom hallowed
  rw [watch, unread_mapSource, hunread] at hunread'
  obtain rfl := (Prod.mk.inj hunread').2
  rw [List.reverse_reverse] at hreread hreread'
  exact ⟨e, hunread, hmark, hreread, hreread'⟩

def returned : List (Call Nat) :=
  [.read, .read, .read, .pushBack 3, .pushBack 2, .commit]

/-- Of the four units read, two waited and two were new. As many are unread as there is room for. -/
theorem unread_reread_returned :
    let c := ((create [1, 2, 3, 4, 5, 6] 3).session returned).2
    let d := c.read.2.read.2.read.2.read.2
    c.buffered = 2 ∧ c.Reads [2, 3, 4, 5] d ∧ d.buffered = 0 ∧
      ∃ e, d.unread [5, 4, 3] = (.ok (), e) ∧
        e.watch.Reads [3, 4, 5] (watch { d with highWater := e.highWater }) := by
  have hbuffered : ((create [1, 2, 3, 4, 5, 6] 3).session returned).2.buffered = 2 := by cbv
  have hfirst : ((create [1, 2, 3, 4, 5, 6] 3).session returned).2.read.1 = .ok (some 2) := by cbv
  have hsecond : ((create [1, 2, 3, 4, 5, 6] 3).session returned).2.read.2.read.1 =
      .ok (some 3) := by cbv
  have hthird : ((create [1, 2, 3, 4, 5, 6] 3).session returned).2.read.2.read.2.read.1 =
      .ok (some 4) := by cbv
  have hfourth : ((create [1, 2, 3, 4, 5, 6] 3).session returned).2.read.2.read.2.read.2.read.1 =
      .ok (some 5) := by cbv
  have hempty : ((create [1, 2, 3, 4, 5, 6] 3).session
      returned).2.read.2.read.2.read.2.read.2.buffered = 0 := by cbv
  have hreads : ((create [1, 2, 3, 4, 5, 6] 3).session returned).2.Reads [2, 3, 4, 5] _ :=
    .cons (Prod.ext hfirst rfl) <| .cons (Prod.ext hsecond rfl) <|
      .cons (Prod.ext hthird rfl) <| .cons (Prod.ext hfourth rfl) .nil
  obtain ⟨e, hunread, -, -, hreread⟩ :=
    unread_reread [1, 2, 3, 4, 5, 6] 3 returned hreads (show 3 ≤ min 4 3 by decide)
  exact ⟨hbuffered, hreads, hempty, e, hunread, hreread⟩

end Munch.Channel
