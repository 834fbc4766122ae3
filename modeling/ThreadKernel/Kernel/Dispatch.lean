import ThreadKernel.Kernel.Basic

/-!
# ThreadKernel.Kernel.Dispatch

A thread's way through the kernel: it is spawned into the ready queue, dispatched, suspended and
made ready again, and it retires.

* `spawn`, `retire`             — the ends of a thread's life.
* `dispatch`, `park`            — into and out of the processor, with the thread's interrupt level.
* `pollPoint`, `markReady`      — suspension and wake.
* `admitWoken`, `chooseThread`  — from the channel to the ready queue, and from there to dispatch.
-/

namespace ThreadKernel.Kernel

variable {κ : Type}

/-- A new thread owns its join queue and waits in the ready queue. -/
def spawn (name : String) (coroutine : κ) (k : Kernel κ) : Except Fault (ThreadId × Kernel κ) :=
  let (joinQueue, table) := k.table.createQueue true
  match k.registry.insert name coroutine joinQueue with
  | .error e => .error e
  | .ok (t, registry) =>
    match table.acquire joinQueue t with
    | .error e => .error e
    | .ok table =>
      match table.waitForAccess k.readyQueue t with
      | .error e => .error e
      | .ok table => .ok (t, { k with registry := registry, table := table })

/-! ## Suspension and wake -/

/-- The running thread, which is about to block. -/
def blockingThread (k : Kernel κ) : Except Fault ThreadId :=
  k.atomically "block_current_thread()" fun k =>
    match k.currentThread with
    | .error e => .error e
    | .ok t => if k.registry.contains t then .ok t else .error .blockUnregistered

/-- The running thread, which is about to yield once. -/
def yieldingThread (k : Kernel κ) : Except Fault ThreadId :=
  match k.currentThread with
  | .error e => .error e
  | .ok t => if k.registry.contains t then .ok t else .error .yieldUnregistered

/-- Polls a yield point of `t` with the waker of its slot. -/
def pollPoint (t : ThreadId) (p : YieldPoint) (k : Kernel κ) : Bool × YieldPoint × Kernel κ :=
  match k.registry.get? t with
  | none => (false, p, k)
  | some slot =>
    let r := p.poll slot.waker slot.signal
    let registry := (k.registry.setSlot t { slot with signal := r.signal }).postOption r.invoked
    (r.ready, r.point, { k with registry := registry })

/-- Gives `t` its wake signal, which announces it if it is suspended. -/
def markReady (t : ThreadId) (k : Kernel κ) : Except Fault (Kernel κ) :=
  k.atomically "mark_ready()" fun k =>
    if k.registry.current = some t then .error (.readyWhileRunning t)
    else
      match k.registry.get? t with
      | none => .error (.readyUnknown t)
      | some slot =>
        let (invoked, signal) := slot.signal.wake
        let registry := (k.registry.setSlot t { slot with signal := signal }).postOption invoked
        .ok { k with registry := registry }

/-- Hands `q` to each waiter in turn and makes it ready, at most `n` times or until none waits. -/
def handOver (q : QueueId) : Nat → Kernel κ → Except Fault (Kernel κ)
  | 0, k => .ok k
  | n + 1, k =>
    match k.nextThread q with
    | .error e => .error e
    | .ok (none, k) => .ok k
    | .ok (some t, k) =>
      match k.markReady t with
      | .error e => .error e
      | .ok k => handOver q n k

/-- Hands `q` to each of its waiters in turn, makes them ready, and leaves `q` to nobody. -/
def handOverAll (q : QueueId) (k : Kernel κ) : Except Fault (Kernel κ) :=
  match k.numWaiters q with
  | .error e => .error e
  | .ok n => k.handOver q (n + 1)

/-! ## Into and out of the processor -/

/-- A thread that holds the processor. -/
structure Dispatched (κ : Type) where
  thread : ThreadId
  task : ThreadTask κ
  /-- The interrupt level of the dispatch loop meanwhile. -/
  loopLevel : Level

/-- Takes the task of `t` out of its slot and sets the thread's own level; `none` if `t` is not
alive. -/
def dispatch (t : ThreadId) (k : Kernel κ) : Except Fault (Option (Dispatched κ × Kernel κ)) :=
  match k.registry.get? t with
  | none => .ok none
  | some slot =>
    match slot.task with
    | none => .error (.dispatchRunning t)
    | some task =>
      let registry := { k.registry.setSlot t { slot with task := none } with current := some t }
      .ok (some (⟨t, task, k.level⟩, { k with registry := registry, level := slot.level }))

/-- The kernel without a running thread, at the level of the dispatch loop. -/
def backToLoop (d : Dispatched κ) (k : Kernel κ) : Kernel κ :=
  { k with registry := { k.registry with current := none }, level := d.loopLevel }

/-- Puts a suspended thread back into its slot together with its interrupt level. -/
def park (d : Dispatched κ) (k : Kernel κ) : Except Fault (Kernel κ) :=
  let level := k.level
  let k := k.backToLoop d
  match k.registry.get? d.thread with
  | none => .error (.threadVanished d.thread)
  | some slot =>
    match { slot with level := level }.putTask d.task with
    | .error e => .error e
    | .ok slot => .ok { k with registry := k.registry.setSlot d.thread slot }

/-- Revokes the ready queue from `t` if the last choice left it to `t`. -/
def releaseReady (t : ThreadId) (k : Kernel κ) : Except Fault (Kernel κ) :=
  match k.table.owner k.readyQueue with
  | .error e => .error e
  | .ok o => if o = some t then k.withTable (k.table.releaseOwnership k.readyQueue) else .ok k

/-- Removes a finished thread. Those that joined it become ready. -/
def retire (t : ThreadId) (k : Kernel κ) : Except Fault (Kernel κ) :=
  match k.registry.get? t with
  | none => .error (.retireUnknown t)
  | some slot =>
    match k.enter.handOverAll slot.joinQueue with
    | .error e => .error e
    | .ok k' =>
      match k'.destroyQueue slot.joinQueue with
      | .error e => .error e
      | .ok k' =>
        match k'.releaseReady t with
        | .error e => .error e
        | .ok k' =>
          match k'.withTable (k'.table.removeThread t) with
          | .error e => .error e
          | .ok k' =>
            let registry := { k'.registry with slots := k'.registry.slots.erase t }
            .ok ({ k' with registry := registry }.restore k.level)

/-- A finished thread leaves the processor and retires. -/
def finish (d : Dispatched κ) (k : Kernel κ) : Except Fault (Kernel κ) :=
  (k.backToLoop d).retire d.thread

/-- Charges a dispatch to the clock. -/
def charge (k : Kernel κ) : Kernel κ := { k with clock := k.clock.advance k.ticksPerDispatch }

/-! ## Choosing a thread -/

/-- Moves announced threads into the ready queue, except those retired or in it already. -/
def admitEach : List ThreadId → Kernel κ → Except Fault (Kernel κ)
  | [], k => .ok k
  | t :: rest, k =>
    if !k.registry.contains t then admitEach rest k
    else if k.table.waitingQueue t = some k.readyQueue then admitEach rest k
    else
      match k.withTable (k.table.waitForAccess k.readyQueue t) with
      | .error e => .error e
      | .ok k => admitEach rest k

def admitWoken (k : Kernel κ) : Except Fault (Kernel κ) :=
  let (woken, registry) := k.registry.drain
  admitEach woken { k with registry := registry }

/-- Admits the announced threads and selects the next one, `none` if nobody is ready. -/
def chooseThread (k : Kernel κ) : Except Fault (Option ThreadId × Kernel κ) :=
  match k.enter.admitWoken with
  | .error e => .error e
  | .ok k' =>
    match k'.nextThread k'.readyQueue with
    | .error e => .error e
    | .ok (t, k') => .ok (t, k'.restore k.level)

end ThreadKernel.Kernel
