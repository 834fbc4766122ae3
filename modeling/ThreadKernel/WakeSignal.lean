/-!
# ThreadKernel.WakeSignal

How a thread gives up the processor and is called back. All yield points of a thread share one wake
signal: a flag that says whether a wake is pending, and the waker left by the last suspension.

* `WakeSignal.wake` — sets the flag and invokes the waker; does nothing while a wake is pending.
* `YieldPoint.poll` — lets the thread pass if the point suspended it before and a wake is pending;
  otherwise it suspends. A point that yields once wakes itself as it suspends.
* `YieldHistory`    — yield points of one thread with polls and wakes in any order.
-/

namespace ThreadKernel

/-- The signal of one thread, with wakers of type `ω`. -/
structure WakeSignal (ω : Type) where
  woken : Bool
  waker : Option ω
deriving DecidableEq, Repr

namespace WakeSignal

variable {ω : Type}

def idle : WakeSignal ω := ⟨false, none⟩

instance : Inhabited (WakeSignal ω) := ⟨idle⟩

/-- The waker that is invoked, and the signal after it. -/
def wake (s : WakeSignal ω) : Option ω × WakeSignal ω :=
  if s.woken then (none, s) else (s.waker, ⟨true, none⟩)

end WakeSignal

/-- A place where a thread suspends: for one dispatch, or until it is woken. -/
structure YieldPoint where
  once : Bool
  /-- Whether the point suspended its thread before. -/
  yielded : Bool
deriving DecidableEq, Repr, Inhabited

namespace YieldPoint

variable {ω : Type}

def yieldOnce : YieldPoint := ⟨true, false⟩

def untilWake : YieldPoint := ⟨false, false⟩

/-- What a poll leaves behind. -/
structure Polled (ω : Type) where
  ready : Bool
  point : YieldPoint
  signal : WakeSignal ω
  /-- The waker invoked by the poll. -/
  invoked : Option ω
deriving DecidableEq, Repr

/-- Consumes the wake flag; a poll that suspends leaves its waker. -/
def poll (p : YieldPoint) (waker : ω) (s : WakeSignal ω) : Polled ω :=
  if p.yielded && s.woken then ⟨true, p, ⟨false, s.waker⟩, none⟩
  else
    let left : WakeSignal ω := ⟨false, some waker⟩
    if p.once then
      let (invoked, left) := left.wake
      ⟨false, { p with yielded := true }, left, invoked⟩
    else ⟨false, { p with yielded := true }, left, none⟩

end YieldPoint

/-- The yield points created so far, the signal they share, and the wakers invoked, oldest first. -/
structure YieldHistory (ω : Type) where
  points : List YieldPoint
  signal : WakeSignal ω
  invoked : List ω
deriving DecidableEq, Repr

namespace YieldHistory

variable {ω : Type}

def start : YieldHistory ω := ⟨[], .idle, []⟩

inductive Op (ω : Type) where
  | create (once : Bool)
  | poll (index : Nat) (waker : ω)
  | wake
deriving DecidableEq, Repr

/-- Whether the operation was a poll that let the thread pass, and the history after it. A poll of a
point that was not created changes nothing. -/
def apply (h : YieldHistory ω) : Op ω → Bool × YieldHistory ω
  | .create once => (false, { h with points := h.points ++ [⟨once, false⟩] })
  | .poll index waker =>
    match h.points[index]? with
    | none => (false, h)
    | some p =>
      let r := p.poll waker h.signal
      (r.ready, ⟨h.points.set index r.point, r.signal, h.invoked ++ r.invoked.toList⟩)
  | .wake =>
    let (invoked, signal) := h.signal.wake
    (false, { h with signal := signal, invoked := h.invoked ++ invoked.toList })

end YieldHistory
end ThreadKernel
