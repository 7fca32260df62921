import Munch.Proofs.Allowance

namespace Munch.Channel

variable {σ υ : Type}

def levels [Source σ υ] (c : Channel σ υ) (calls : List (Call υ)) : Set Nat :=
  (fun before => (c.session before).2.buffered) '' {before | before <+: calls}

variable [Source σ υ]

def perform? (c : Channel σ υ) : Call υ → Option (Event υ × Channel σ υ)
  | .read => c.read?.map fun out => (.read out.1, out.2)
  | .pushBack u => (c.pushBack? u).map fun out => (.pushBack u out.1, out.2)
  | .commit => some (.commit, c.commit)
  | .close => c.close?.map fun out => (.close out.1, out.2)

def session? (c : Channel σ υ) : List (Call υ) → Option (List (Event υ) × Channel σ υ)
  | [] => some ([], c)
  | call :: calls => do
    let first ← c.perform? call
    let rest ← first.2.session? calls
    return (first.1 :: rest.1, rest.2)

theorem session_singleton (c : Channel σ υ) (call : Call υ) :
    c.session [call] = ([(c.perform call).1], (c.perform call).2) := rfl

theorem levels_nil (c : Channel σ υ) : c.levels [] = {c.buffered} := by
  simp [levels, session]

theorem levels_append (c : Channel σ υ) (calls : List (Call υ)) (call : Call υ) :
    c.levels (calls ++ [call]) =
      insert ((c.session calls).2.perform call).2.buffered (c.levels calls) := by
  have hprefixes : {before | before <+: calls ++ [call]} =
      insert (calls ++ [call]) {before | before <+: calls} :=
    Set.ext fun _ => List.prefix_concat_iff
  rw [levels, hprefixes, Set.image_insert_eq, session_append, session_singleton, levels]

namespace Refines

variable {c : Channel σ υ} {v : Stack σ υ} {capacity : Nat}

theorem perform?_eq (h : c.Refines v capacity 0) (call : Call υ) :
    c.perform? call = some (c.perform call) := by
  cases call with
  | read => rw [Channel.perform?, h.read?_eq]; rfl
  | pushBack u => rw [Channel.perform?, h.pushBack?_eq]; rfl
  | commit => rfl
  | close => rw [Channel.perform?, h.close?_eq]; rfl

theorem session?_eq (h : c.Refines v capacity 0) (calls : List (Call υ)) :
    c.session? calls = some (c.session calls) := by
  induction calls generalizing c v with
  | nil => rfl
  | cons call calls ih =>
    rw [Channel.session?, h.perform?_eq, Option.bind_eq_bind, Option.bind_some,
      ih (h.perform call)]
    rfl

theorem highWater_perform (h : c.Refines v capacity 0) (hf : c.Fits capacity) (call : Call υ) :
    (c.perform call).2.highWater = max (c.perform call).2.buffered c.highWater := by
  have hle := (h.fits_perform hf call).buffered_le
  cases call with
  | read =>
    have heq : (c.perform .read).2.highWater = c.highWater := c.reading.highWater_eq
    rw [heq] at hle ⊢
    exact (Nat.max_eq_right hle).symm
  | pushBack u =>
    rw [Channel.perform] at hle ⊢
    rcases c.pushBack_cases u with ⟨e, he⟩ | ⟨-, -, hok⟩
    · rw [he] at hle ⊢
      exact (Nat.max_eq_right hle).symm
    · rw [hok]
      exact Nat.max_comm _ _
  | commit => exact (Nat.max_eq_right hle).symm
  | close =>
    have heq : (c.perform .close).2.highWater = c.highWater := c.highWater_close
    rw [heq] at hle ⊢
    exact (Nat.max_eq_right hle).symm

end Refines

theorem isGreatest_highWater (s : σ) (capacity : Nat) (calls : List (Call υ)) :
    IsGreatest ((create s capacity).levels calls)
      ((create s capacity).session calls).2.highWater := by
  induction calls using List.reverseRecOn with
  | nil =>
    rw [levels_nil]
    exact isGreatest_singleton
  | append_singleton calls call ih =>
    have hcreate : (create s capacity : Channel σ υ).Refines (.ofSource s) capacity 0 :=
      .create s capacity
    have hfits := hcreate.fits_session (.create s capacity) calls
    rw [levels_append, session_append, session_singleton,
      (hcreate.session calls).highWater_perform hfits call]
    exact ih.insert _

/-- In any session of a channel of any capacity, what waits and what may still be unread fit into
the capacity together, and the high water mark is the most that ever waited. No check stops a call
of the session. A unit is taken back only where there is room for it, so never where the capacity is
zero. -/
theorem session_safe (s : σ) (capacity : Nat) (calls : List (Call υ)) :
    let c := ((create s capacity).session calls).2
    c.capacity = capacity ∧ c.buffered + c.allowance ≤ capacity ∧
      IsGreatest ((create s capacity).levels calls) c.highWater ∧
      (create s capacity).session? calls = some ((create s capacity).session calls) ∧
      (∀ u, (c.pushBack u).1 = .ok () → c.buffered < capacity) ∧
      (capacity = 0 → ∀ u, (c.pushBack u).1 ≠ .ok ()) := by
  have hcreate : (create s capacity : Channel σ υ).Refines (.ofSource s) capacity 0 :=
    .create s capacity
  have href := hcreate.session calls
  have hroom : ((create s capacity).session calls).2.buffered +
      ((create s capacity).session calls).2.allowance ≤ capacity := by
    rw [href.buffered_eq, Nat.add_comm]
    exact href.room
  have hlt : ∀ u, (((create s capacity).session calls).2.pushBack u).1 = .ok () →
      ((create s capacity).session calls).2.buffered < capacity := by
    intro u hok
    rcases pushBack_cases _ u with ⟨e, he⟩ | ⟨-, ha, -⟩
    · rw [he] at hok
      cases hok
    · omega
  refine ⟨href.capacity_eq, hroom, isGreatest_highWater s capacity calls,
    hcreate.session?_eq calls, hlt, ?_⟩
  rintro rfl u hok
  exact Nat.not_lt_zero _ (hlt u hok)

theorem session_safe_wrapping :
    let c := ((create [1, 2, 3, 4] 2).session wrapping).2
    c.buffered = 1 ∧ IsGreatest ((create [1, 2, 3, 4] 2).levels wrapping) 2 ∧
      (c.pushBack 2).1 = .ok () ∧ c.buffered < 2 ∧
      (((create [1, 2, 3, 4] 0).session wrapping).2.pushBack 2).1 ≠ .ok () := by
  have hbuffered : ((create [1, 2, 3, 4] 2).session wrapping).2.buffered = 1 := by cbv
  have hmark : ((create [1, 2, 3, 4] 2).session wrapping).2.highWater = 2 := by cbv
  have haccepted : (((create [1, 2, 3, 4] 2).session wrapping).2.pushBack 2).1 = .ok () := by cbv
  obtain ⟨-, -, hgreatest, -, hroom, -⟩ := session_safe [1, 2, 3, 4] 2 wrapping
  obtain ⟨-, -, -, -, -, hnone⟩ := session_safe [1, 2, 3, 4] 0 wrapping
  rw [hmark] at hgreatest
  exact ⟨hbuffered, hgreatest, haccepted, hroom 2 haccepted, hnone rfl 2⟩

end Munch.Channel
