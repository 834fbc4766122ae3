import ThreadKernel.Fault

/-!
# ThreadKernel.Clock

Simulated time in ticks, and the timer that raises an interrupt every `interval` ticks.

* `Clock.start`       — time zero, first interrupt after one interval.
* `Clock.advance`     — time passes; it stops at the greatest time.
* `Clock.fastForward` — jumps to the next interrupt.
* `Clock.takeTick?`   — acknowledges a due interrupt. Interrupts missed meanwhile count as one.
-/

namespace ThreadKernel

/-- The greatest time that can be stored. -/
def maxTime : Nat := 18446744073709551615

structure Clock where
  now : Nat
  interval : Nat
  /-- The time of the next interrupt. -/
  nextTick : Nat
  interval_pos : 0 < interval
deriving DecidableEq, Repr

namespace Clock

def start (interval : Nat) : Except Fault Clock :=
  if h : 0 < interval then .ok ⟨0, interval, interval, h⟩ else .error .intervalNotPositive

/-- Time after `ticks` more, no later than the greatest time. -/
def after (now ticks : Nat) : Nat := min (now + ticks) maxTime

def advance (c : Clock) (ticks : Nat) : Clock := { c with now := after c.now ticks }

def fastForward (c : Clock) : Clock :=
  if c.now < c.nextTick then { c with now := c.nextTick } else c

/-- The clock with a due interrupt acknowledged and the next one set, `none` if none is due. -/
def takeTick? (c : Clock) : Option Clock :=
  if c.now < c.nextTick then none
  else
    let missed := (c.now - c.nextTick) / c.interval
    some { c with nextTick := c.nextTick + (missed + 1) * c.interval }

inductive Op where
  | advance (ticks : Nat)
  | fastForward
  | takeTick
deriving DecidableEq, Repr

/-- The clock after an operation, and whether it acknowledged an interrupt. -/
def apply (c : Clock) : Op → Bool × Clock
  | .advance ticks => (false, c.advance ticks)
  | .fastForward => (false, c.fastForward)
  | .takeTick =>
    match c.takeTick? with
    | some c' => (true, c')
    | none => (false, c)

end Clock
end ThreadKernel
