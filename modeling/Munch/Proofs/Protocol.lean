import Munch.Proofs.Session
import Munch.Script

namespace Munch

variable {σ υ : Type}

inductive Request (υ : Type)
  | next (reply : Reply υ)
  | close (fault : Option IoError)

namespace Request

def isNext : Request υ → Bool
  | .next _ => true
  | .close _ => false

def isClose : Request υ → Bool
  | .next _ => false
  | .close _ => true

def isUnit : Request υ → Bool
  | .next (.unit _) => true
  | _ => false

def isStop : Request υ → Bool
  | .next .ended => true
  | .next (.failed _) => true
  | _ => false

def failure? : Request υ → Option IoError
  | .next (.failed e) => some e
  | _ => none

end Request

structure Watched (σ υ : Type) where
  source : σ
  requests : List (Request υ) := []

instance [Source σ υ] : Source (Watched σ υ) υ where
  next w :=
    let (reply, source) := Source.next w.source
    (reply, ⟨source, .next reply :: w.requests⟩)
  close w :=
    let (fault, source) := Source.close w.source
    (fault, ⟨source, .close fault :: w.requests⟩)

def asked (us : List υ) : List (Request υ) := us.map fun u => .next (.unit u)

/-- The calls, last one first, that a source can have received from a channel at the given stage. -/
inductive Recorded (us : List υ) : Stage → List (Request υ) → Prop
  | open : Recorded us .open (asked us)
  | ended : Recorded us .ended (.next .ended :: asked us)
  | closed (f : Option IoError) : Recorded us (.closed f) (.close f :: asked us)
  | closedAtEnd (f : Option IoError) :
      Recorded us (.closed f) (.close f :: .next .ended :: asked us)
  | failed (e : IoError) (f : Option IoError) :
      Recorded us (.closed f) (.close f :: .next (.failed e) :: asked us)

theorem isUnit_of_mem_asked {us : List υ} {r : Request υ} (h : r ∈ asked us) :
    r.isUnit = true := by
  obtain ⟨u, -, rfl⟩ := List.mem_map.1 h
  rfl

theorem countP_isNext_asked (us : List υ) : (asked us).countP Request.isNext = us.length := by
  simp [asked, List.countP_map, Function.comp_def, Request.isNext]

theorem countP_isClose_asked (us : List υ) : (asked us).countP Request.isClose = 0 := by
  simp [asked, List.countP_map, Function.comp_def, Request.isClose]

theorem any_isStop_asked (us : List υ) : (asked us).any Request.isStop = false := by
  simp [asked, List.any_map, Function.comp_def, Request.isStop]

theorem failures_asked (us : List υ) : (asked us).filterMap Request.failure? = [] := by
  simp [asked, List.filterMap_map, Function.comp_def, Request.failure?]

namespace Recorded

variable {us : List υ} {stage : Stage} {rs : List (Request υ)}

theorem eq_of_open (h : Recorded us .open rs) : rs = asked us := by
  cases h with
  | «open» => rfl

theorem eq_of_ended (h : Recorded us .ended rs) : rs = .next .ended :: asked us := by
  cases h with
  | ended => rfl

theorem pairwise (h : Recorded us stage rs) :
    rs.Pairwise fun later earlier => later.isNext = true → earlier.isUnit = true := by
  have hasked : (asked us).Pairwise fun later earlier =>
      later.isNext = true → earlier.isUnit = true :=
    List.pairwise_of_forall_mem_list fun _ _ _ hr _ => isUnit_of_mem_asked hr
  have hnext : ∀ r : Request υ, ((r :: asked us).Pairwise fun later earlier =>
      later.isNext = true → earlier.isUnit = true) :=
    fun r => hasked.cons fun _ hr _ => isUnit_of_mem_asked hr
  cases h with
  | «open» => exact hasked
  | ended => exact hnext _
  | closed f => exact hnext _
  | closedAtEnd f => exact (hnext _).cons fun _ _ hclose => nomatch hclose
  | failed e f => exact (hnext _).cons fun _ _ hclose => nomatch hclose

theorem countP_isNext (h : Recorded us stage rs) :
    rs.countP Request.isNext = us.length + if rs.any Request.isStop then 1 else 0 := by
  cases h with
  | _ => simp [List.countP_cons, Request.isNext, Request.isStop, countP_isNext_asked,
      any_isStop_asked]

theorem countP_isClose_of_closed {f : Option IoError} (h : Recorded us (.closed f) rs) :
    rs.countP Request.isClose = 1 := by
  cases h with
  | _ => simp [List.countP_cons, Request.isClose, countP_isClose_asked]

theorem countP_isClose_of_open (h : Recorded us stage rs) (ho : ∀ f, stage ≠ .closed f) :
    rs.countP Request.isClose = 0 := by
  cases h with
  | «open» => exact countP_isClose_asked us
  | ended => simp [Request.isClose, countP_isClose_asked]
  | closed f => exact absurd rfl (ho f)
  | closedAtEnd f => exact absurd rfl (ho f)
  | failed e f => exact absurd rfl (ho f)

theorem length_failures_le (h : Recorded us stage rs) :
    (rs.filterMap Request.failure?).length ≤ 1 := by
  cases h with
  | _ => simp [List.filterMap_cons, Request.failure?, failures_asked]

end Recorded

namespace Watched

variable [Source σ υ] {w w' : Watched σ υ}

theorem requests_of_next {reply : Reply υ} (h : Source.next w = (reply, w')) :
    w'.requests = .next reply :: w.requests := by
  cases h
  rfl

theorem next_eq {reply : Reply υ} {s : σ} (h : Source.next w.source = (reply, s)) :
    Source.next w = (reply, ⟨s, .next reply :: w.requests⟩) := by
  have hw : Source.next w = ((Source.next w.source).1,
      ⟨(Source.next w.source).2, .next (Source.next w.source).1 :: w.requests⟩) := rfl
  rw [hw, h]

theorem requests_close (w : Watched σ υ) :
    (Source.close w).2.requests = .close (Source.close w).1 :: w.requests := rfl

end Watched

namespace Stack

variable {v : Stack (Watched σ υ) υ}

def Recorded (v : Stack (Watched σ υ) υ) : Prop :=
  ∃ us : List υ, us.length = v.pulled ∧ Munch.Recorded us v.stage v.source.requests

theorem Recorded.eq_asked (h : v.Recorded) (hs : v.stage = .open) :
    ∃ us : List υ, us.length = v.pulled ∧ v.source.requests = asked us := by
  obtain ⟨us, hlen, h⟩ := h
  rw [hs] at h
  exact ⟨us, hlen, h.eq_of_open⟩

variable [Source σ υ]

theorem Recorded.reading (h : v.Recorded)
    {out : Except StreamError (Option υ) × Stack (Watched σ υ) υ} (hr : v.Reading out) :
    out.2.Recorded := by
  cases hr with
  | closed hs => exact h
  | waiting ho hw => exact h
  | ended hs hw => exact h
  | @unit u s hs hw hn =>
    obtain ⟨us, hlen, hrs⟩ := h.eq_asked hs
    refine ⟨u :: us, congrArg (· + 1) hlen, ?_⟩
    simp only [hs, Watched.requests_of_next hn, hrs]
    exact .open
  | last hs hw hn =>
    obtain ⟨us, hlen, hrs⟩ := h.eq_asked hs
    refine ⟨us, hlen, ?_⟩
    simp only [Watched.requests_of_next hn, hrs]
    exact .ended
  | failed hs hw hn =>
    obtain ⟨us, hlen, hrs⟩ := h.eq_asked hs
    refine ⟨us, hlen, ?_⟩
    simp only [Watched.requests_close, Watched.requests_of_next hn, hrs]
    exact .failed _ _

theorem Recorded.close (h : v.Recorded) : v.close.Recorded := by
  obtain ⟨us, hlen, hr⟩ := h
  cases hs : v.stage with
  | closed f =>
    rw [close_of_closed hs]
    exact ⟨us, hlen, hr⟩
  | «open» =>
    rw [hs] at hr
    rw [(isOpen_of_open hs).close]
    refine ⟨us, hlen, ?_⟩
    simp only [Watched.requests_close, hr.eq_of_open]
    exact .closed _
  | ended =>
    rw [hs] at hr
    rw [(isOpen_of_ended hs).close]
    refine ⟨us, hlen, ?_⟩
    simp only [Watched.requests_close, hr.eq_of_ended]
    exact .closedAtEnd _

theorem Recorded.follow (h : v.Recorded) {e : Channel.Event υ} : (v.follow e).Recorded := by
  match e with
  | .read _ => exact h.reading v.reading
  | .pushBack _ (.ok ()) => exact h
  | .pushBack _ (.error _) => exact h
  | .commit => exact h
  | .close _ => exact h.close

theorem Recorded.foldl_follow (h : v.Recorded) (es : List (Channel.Event υ)) :
    (es.foldl Stack.follow v).Recorded := by
  induction es generalizing v with
  | nil => exact h
  | cons e es ih => exact ih h.follow

theorem Reading.source_eq {out : Except StreamError (Option υ) × Stack (Watched σ υ) υ}
    (h : v.Reading out) (hw : v.waiting ≠ []) : out.2.source = v.source := by
  cases h with
  | closed _ => rfl
  | waiting _ _ => rfl
  | ended _ hnil => exact absurd hnil hw
  | unit _ hnil _ => exact absurd hnil hw
  | last _ hnil _ => exact absurd hnil hw
  | failed _ hnil _ => exact absurd hnil hw

theorem countP_isNext_follow (e : Channel.Event υ) (hw : v.waiting ≠ []) :
    (v.follow e).source.requests.countP Request.isNext =
      v.source.requests.countP Request.isNext := by
  match e with
  | .read _ => rw [follow, v.reading.source_eq hw]
  | .pushBack _ (.ok ()) => rfl
  | .pushBack _ (.error _) => rfl
  | .commit => rfl
  | .close _ =>
    rcases v.close_cases with heq | ⟨-, heq⟩
    · rw [follow, heq]
    · rw [follow, heq, Watched.requests_close]
      simp [Request.isNext]

end Stack

namespace Channel

def Event.failure? : Event υ → Option IoError
  | .read (.error (.failed e)) => some e
  | _ => none

def Event.IsRefusal : Event υ → Prop
  | .read answer => answer = .error .closed
  | .pushBack _ answer => answer = .error .closed
  | .commit => True
  | .close answer => answer = .ok ()

end Channel

namespace Stack

variable [Source σ υ] {v : Stack (Watched σ υ) υ}

theorem Reading.failures_eq {out : Except StreamError (Option υ) × Stack (Watched σ υ) υ}
    (h : v.Reading out) :
    out.2.source.requests.filterMap Request.failure? =
      (Channel.Event.read out.1).failure?.toList ++
        v.source.requests.filterMap Request.failure? := by
  cases h with
  | closed _ => rfl
  | waiting _ _ => rfl
  | ended _ _ => rfl
  | unit _ _ hn => rw [Watched.requests_of_next hn]; rfl
  | last _ _ hn => rw [Watched.requests_of_next hn]; rfl
  | failed _ _ hn => rw [Watched.requests_close, Watched.requests_of_next hn]; rfl

theorem failures_follow {e : Channel.Event υ} (hr : ∀ a, e = .read a → a = v.read.1) :
    (v.follow e).source.requests.filterMap Request.failure? =
      e.failure?.toList ++ v.source.requests.filterMap Request.failure? := by
  match e with
  | .read a =>
    rw [hr a rfl]
    exact v.reading.failures_eq
  | .pushBack _ (.ok ()) => rfl
  | .pushBack _ (.error _) => rfl
  | .commit => rfl
  | .close _ =>
    rcases v.close_cases with heq | ⟨-, heq⟩
    · rw [follow, heq]; rfl
    · rw [follow, heq, Watched.requests_close]; rfl

end Stack

namespace Channel

variable [Source σ υ]

section Watched

variable {c : Channel (Watched σ υ) υ} {v : Stack (Watched σ υ) υ} {capacity : Nat}

def unwatched (c : Channel (Watched σ υ) υ) : Channel σ υ :=
  ⟨c.source.source, c.buffer, c.allowance, c.stage, c.pulled, c.highWater⟩

theorem pull_unwatched (c : Channel (Watched σ υ) υ) :
    c.unwatched.pull = (c.pull.1, c.pull.2.unwatched) := by
  have hsource : c.unwatched.source = c.source.source := rfl
  cases hn : Source.next c.source.source with
  | mk reply s =>
    rw [pull, pull, hsource, hn, Watched.next_eq hn]
    cases reply with
    | unit u => rfl
    | ended => rfl
    | failed e => rfl

theorem read_unwatched (c : Channel (Watched σ υ) υ) :
    c.unwatched.read = (c.read.1, c.read.2.unwatched) := by
  have hclosed : c.unwatched.isClosed = c.isClosed := rfl
  have hbuffer : c.unwatched.buffer = c.buffer := rfl
  rw [read, read, hclosed, hbuffer]
  cases c.isClosed with
  | true => rfl
  | false =>
    cases c.buffer.popFront with
    | mk a buffer =>
      cases a with
      | some u => rfl
      | none =>
        let d : Channel (Watched σ υ) υ := { c with buffer }
        have hd : (if c.stage = .ended then (.ok none, d.unwatched) else d.unwatched.pull) =
            ((if c.stage = .ended then (.ok none, d) else d.pull).1,
              (if c.stage = .ended then (.ok none, d) else d.pull).2.unwatched) := by
          rw [pull_unwatched]
          split <;> rfl
        exact hd

omit [Source σ υ] in
theorem pushBack_unwatched (c : Channel (Watched σ υ) υ) (u : υ) :
    c.unwatched.pushBack u = ((c.pushBack u).1, (c.pushBack u).2.unwatched) :=
  c.pushBack_mapSource Watched.source u

theorem shut_unwatched (c : Channel (Watched σ υ) υ) :
    c.unwatched.shut = (c.shut.1, c.shut.2.unwatched) := rfl

theorem close_unwatched (c : Channel (Watched σ υ) υ) :
    c.unwatched.close = (c.close.1, c.close.2.unwatched) := by
  have hclosed : c.unwatched.isClosed = c.isClosed := rfl
  rw [close, close, hclosed, shut_unwatched]
  cases c.isClosed with
  | true => rfl
  | false =>
    cases c.shut with
    | mk fault d => cases fault <;> rfl

theorem perform_unwatched (c : Channel (Watched σ υ) υ) (call : Call υ) :
    c.unwatched.perform call = ((c.perform call).1, (c.perform call).2.unwatched) := by
  cases call with
  | read => rw [perform, read_unwatched]; rfl
  | pushBack u => rw [perform, pushBack_unwatched]; rfl
  | commit => rfl
  | close => rw [perform, close_unwatched]; rfl

theorem session_unwatched (c : Channel (Watched σ υ) υ) (calls : List (Call υ)) :
    c.unwatched.session calls = ((c.session calls).1, (c.session calls).2.unwatched) := by
  induction calls generalizing c with
  | nil => rfl
  | cons call calls ih => rw [session_cons, session_cons, perform_unwatched, ih]

theorem Refines.failures_session (h : c.Refines v capacity 0) (calls : List (Call υ)) :
    ((c.session calls).2.source.requests.filterMap Request.failure?).reverse =
      (v.source.requests.filterMap Request.failure?).reverse ++
        (c.session calls).1.filterMap Event.failure? := by
  induction calls generalizing c v with
  | nil => rw [← h.source_eq]; exact (List.append_nil _).symm
  | cons call calls ih =>
    have hstep := Stack.failures_follow (v := v) (e := (c.perform call).1)
      fun _ => h.answer_perform
    rw [session_cons, ih (h.perform call), hstep, List.reverse_append, List.append_assoc,
      List.filterMap_cons]
    cases (c.perform call).1.failure? <;> rfl

end Watched

variable {c : Channel σ υ} {v : Stack σ υ} {capacity : Nat}

theorem perform_of_closed (hc : c.isClosed = true) (call : Call υ) :
    (c.perform call).1.IsRefusal ∧ (c.perform call).2.isClosed = true := by
  cases call with
  | read => rw [perform, read, if_pos hc]; exact ⟨rfl, hc⟩
  | pushBack u => rw [perform, pushBack_of_closed hc]; exact ⟨rfl, hc⟩
  | commit => exact ⟨trivial, hc⟩
  | close => rw [perform, close, if_pos hc]; exact ⟨rfl, hc⟩

theorem session_of_closed (hc : c.isClosed = true) (calls : List (Call υ)) :
    ∀ e ∈ (c.session calls).1, e.IsRefusal := by
  induction calls generalizing c with
  | nil => exact List.forall_mem_nil _
  | cons call calls ih =>
    obtain ⟨hrefused, hclosed⟩ := perform_of_closed hc call
    exact List.forall_mem_cons.2 ⟨hrefused, ih hclosed⟩

theorem Refines.isClosed_of_failure (h : c.Refines v capacity 0) {call : Call υ}
    (he : (c.perform call).1.failure? ≠ none) : (c.perform call).2.isClosed = true := by
  have href := h.perform call
  cases hevent : (c.perform call).1 with
  | read answer =>
    rw [hevent] at he href
    cases hr : v.read with
    | mk out w =>
      have hanswer : answer = out := (h.answer_perform hevent).trans (congrArg Prod.fst hr)
      subst hanswer
      cases answer with
      | ok unit => exact absurd rfl he
      | error e =>
        obtain ⟨f, hf⟩ := Stack.closed_of_read_error hr
        rw [Stack.follow, hr] at href
        exact href.isClosed_iff.2 ⟨f, hf⟩
  | pushBack u answer => rw [hevent] at he; exact absurd rfl he
  | commit => rw [hevent] at he; exact absurd rfl he
  | close answer => rw [hevent] at he; exact absurd rfl he

theorem Refines.pairwise_session (h : c.Refines v capacity 0) (calls : List (Call υ)) :
    (c.session calls).1.Pairwise fun earlier later =>
      earlier.failure? ≠ none → later.IsRefusal := by
  induction calls generalizing c v with
  | nil => exact .nil
  | cons call calls ih =>
    refine (ih (h.perform call)).cons fun later hlater he => ?_
    exact session_of_closed (h.isClosed_of_failure he) calls later hlater

theorem Refines.countP_isNext_perform {c : Channel (Watched σ υ) υ} {v : Stack (Watched σ υ) υ}
    (h : c.Refines v capacity 0) (call : Call υ) (hbuffered : c.buffered ≠ 0) :
    (c.perform call).2.source.requests.countP Request.isNext =
      c.source.requests.countP Request.isNext := by
  have hw : v.waiting ≠ [] := by
    rw [h.buffered_eq] at hbuffered
    exact List.ne_nil_of_length_pos (Nat.pos_of_ne_zero hbuffered)
  rw [(h.perform call).source_eq, h.source_eq]
  exact v.countP_isNext_follow _ hw

omit [Source σ υ] in
theorem Refines.countP_isClose {c : Channel (Watched σ υ) υ} {v : Stack (Watched σ υ) υ}
    (h : c.Refines v capacity 0) (hv : v.Recorded) :
    c.source.requests.countP Request.isClose = if c.isClosed then 1 else 0 := by
  obtain ⟨us, -, hrecorded⟩ := hv
  rw [h.source_eq]
  cases hc : c.isClosed with
  | true =>
    obtain ⟨f, hf⟩ := h.isClosed_iff.1 hc
    rw [hf] at hrecorded
    exact hrecorded.countP_isClose_of_closed
  | false => exact hrecorded.countP_isClose_of_open (h.isOpen hc)

def watching (s : σ) (capacity : Nat) : Channel (Watched σ υ) υ := create ⟨s, []⟩ capacity

/-- In any session a channel keeps to a protocol with its source. It never asks after the end,
after a failure or after closing, nor while units wait to be read again. It asks once for every
unit pulled, and once more where the source stops. It releases the source exactly once if it is
closed. A failure is reported by one read, as the source told of it, and every call after that is
refused. -/
theorem source_protocol (s : σ) (capacity : Nat) (calls : List (Call υ)) :
    let plain := (create s capacity).session calls
    let watched := (watching s capacity).session calls
    let c := watched.2
    let requests := c.source.requests
    plain = (watched.1, c.unwatched) ∧
      (requests.Pairwise fun later earlier => later.isNext = true → earlier.isUnit = true) ∧
      (c.buffered ≠ 0 → ∀ call, (c.perform call).2.source.requests.countP Request.isNext =
        requests.countP Request.isNext) ∧
      requests.countP Request.isNext = c.pulled + (if requests.any Request.isStop then 1 else 0) ∧
      requests.countP Request.isClose = (if c.isClosed then 1 else 0) ∧
      (watched.1.Pairwise fun earlier later => earlier.failure? ≠ none → later.IsRefusal) ∧
      watched.1.filterMap Event.failure? = (requests.filterMap Request.failure?).reverse ∧
      (watched.1.filterMap Event.failure?).length ≤ 1 := by
  have hcreate : (watching s capacity : Channel (Watched σ υ) υ).Refines
      (.ofSource ⟨s, []⟩) capacity 0 := .create _ capacity
  have hlast := hcreate.session calls
  have hstart : (Stack.ofSource ⟨s, []⟩ : Stack (Watched σ υ) υ).Recorded := ⟨[], rfl, .open⟩
  have hrecorded := hstart.foldl_follow
    ((watching s capacity : Channel (Watched σ υ) υ).session calls).1
  have hfailures := hcreate.failures_session calls
  have hclose := hlast.countP_isClose hrecorded
  obtain ⟨us, hlen, hrs⟩ := hrecorded
  rw [← hlast.source_eq] at hrs
  rw [← hlast.pulled_eq] at hlen
  refine ⟨session_unwatched (watching s capacity) calls, hrs.pairwise,
    fun hbuffered call => hlast.countP_isNext_perform call hbuffered, ?_,
    hclose, hcreate.pairwise_session calls, hfailures.symm, ?_⟩
  · rw [hrs.countP_isNext, hlen]
  · have hle := hrs.length_failures_le
    rw [← List.length_reverse, hfailures] at hle
    exact hle

def broken : Script where
  steps := [.units ['a', 'b'], .failure ⟨.brokenPipe, "gone"⟩, .units ['c']]
  closeFault := some ⟨.other, "stuck"⟩

def stubborn : List (Call Char) :=
  [.read, .read, .pushBack 'b', .read, .read, .read, .pushBack 'b', .close]

theorem source_protocol_broken :
    let waiting := ((watching broken 1).session (stubborn.take 3)).2
    let run := (watching broken 1).session stubborn
    waiting.buffered ≠ 0 ∧
      (waiting.perform .read).2.source.requests.countP Request.isNext =
        waiting.source.requests.countP Request.isNext ∧
      run.1.filterMap Event.failure? = [⟨.brokenPipe, "gone"⟩] ∧
      run.2.source.requests.countP Request.isNext = 2 + 1 ∧
      run.2.source.requests.countP Request.isClose = 1 ∧
      run.1.getLast? = some (.close (.ok ())) := by
  have hbuffered : ((watching broken 1).session (stubborn.take 3)).2.buffered ≠ 0 := by cbv
  have hpulled : ((watching broken 1).session stubborn).2.pulled = 2 := by cbv
  have hstop : ((watching broken 1).session stubborn).2.source.requests.any Request.isStop =
      true := by cbv
  have hclosed : ((watching broken 1).session stubborn).2.isClosed = true := by cbv
  have hfailure : ((watching broken 1).session stubborn).2.source.requests.filterMap
      Request.failure? = [⟨.brokenPipe, "gone"⟩] := by cbv
  obtain ⟨-, -, hwaiting, -⟩ := source_protocol broken 1 (stubborn.take 3)
  obtain ⟨-, -, -, hnext, hclose, -, hreported, -⟩ := source_protocol broken 1 stubborn
  rw [hpulled, if_pos hstop] at hnext
  rw [if_pos hclosed] at hclose
  rw [hfailure] at hreported
  exact ⟨hbuffered, hwaiting hbuffered .read, hreported, hnext, hclose, by cbv⟩

end Channel

end Munch
