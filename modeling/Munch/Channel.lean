import Munch.Ring
import Munch.Source

/-! A channel lets its reader unread what it has just read. Unread units are kept in a ring of
fixed capacity and read again, last one first, before the source is asked for more. Each read
allows one more unread, up to the room left; `commit` takes all of that back. -/

namespace Munch

/-- How far a channel has come. A closed one keeps what its source said on being released. -/
inductive Stage
  | open
  | ended
  | closed (fault : Option IoError)
  deriving DecidableEq

structure Channel (σ υ : Type) where
  source : σ
  buffer : Ring υ
  allowance : Nat
  stage : Stage
  pulled : Nat
  highWater : Nat

namespace Channel

variable {σ υ : Type}

def create (source : σ) (capacity : Nat) : Channel σ υ :=
  ⟨source, .empty capacity, 0, .open, 0, 0⟩

def isClosed (c : Channel σ υ) : Bool :=
  match c.stage with
  | .closed _ => true
  | _ => false

def buffered (c : Channel σ υ) : Nat := c.buffer.length

def capacity (c : Channel σ υ) : Nat := c.buffer.capacity

def grant (c : Channel σ υ) : Channel σ υ :=
  { c with allowance := min (c.allowance + 1) (c.capacity - c.buffered) }

def commit (c : Channel σ υ) : Channel σ υ := { c with allowance := 0 }

def pushBack (c : Channel σ υ) (u : υ) : Except StreamError Unit × Channel σ υ :=
  if c.isClosed then (.error .closed, c)
  else if c.allowance = 0 then (.error .underflow, c)
  else
    let buffer := c.buffer.pushFront u
    (.ok (), { c with
      buffer
      allowance := c.allowance - 1
      highWater := max c.highWater buffer.length })

def unread (c : Channel σ υ) : List υ → Except StreamError Unit × Channel σ υ
  | [] => (.ok (), c)
  | u :: us =>
    match c.pushBack u with
    | (.error e, c) => (.error e, c)
    | (.ok (), c) => c.unread us

variable [Source σ υ]

def shut (c : Channel σ υ) : Option IoError × Channel σ υ :=
  let (fault, source) := Source.close c.source
  (fault, { c with source, buffer := c.buffer.clear, allowance := 0, stage := .closed fault })

def close (c : Channel σ υ) : Except StreamError Unit × Channel σ υ :=
  if c.isClosed then (.ok (), c)
  else
    match c.shut with
    | (some e, c) => (.error (.failed e), c)
    | (none, c) => (.ok (), c)

/-- Asks the source. A failure shuts the channel and is reported whatever the release says. -/
def pull (c : Channel σ υ) : Except StreamError (Option υ) × Channel σ υ :=
  match Source.next c.source with
  | (.unit u, source) => (.ok (some u), { c with source, pulled := c.pulled + 1 }.grant)
  | (.ended, source) => (.ok none, { c with source, stage := .ended })
  | (.failed e, source) => (.error (.failed e), { c with source }.shut.2)

def read (c : Channel σ υ) : Except StreamError (Option υ) × Channel σ υ :=
  if c.isClosed then (.error .closed, c)
  else
    match c.buffer.popFront with
    | (some u, buffer) => (.ok (some u), { c with buffer }.grant)
    | (none, buffer) =>
      let c := { c with buffer }
      if c.stage = .ended then (.ok none, c) else c.pull

end Channel

end Munch
