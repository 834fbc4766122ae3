import ThreadKernel.Alarm
import ThreadKernel.Condition
import ThreadKernel.Program

/-!
# ThreadKernel.System

A kernel together with everything that programs share: locks, conditions, alarms, wait queues, timer
handlers, variables and the log of what was executed.

* `Activation`     — a program in execution: what is left of it, and the regions it is in.
* `System`         — the shared state.
* `System.perform` — the effect of each action that neither nests another nor runs the kernel.
-/

namespace ThreadKernel

/-- What a thread does once it is let through the yield point at which it waits. -/
inductive Resume where
  /-- The instruction is complete. -/
  | proceed
  /-- It leaves the atomic region in which it blocked. -/
  | leave (previous : Level)
  /-- It was handed a lock, and leaves the atomic region. -/
  | takeOver (lock : Nat) (previous : Level)
  /-- It leaves the atomic region and takes the lock again that it gave up. -/
  | relock (lock : Nat) (previous : Level)
deriving DecidableEq, Repr

inductive Stage where
  /-- The first instruction has not begun. -/
  | fresh
  /-- The first instruction waits at a yield point. -/
  | suspended (point : YieldPoint) (resume : Resume)
deriving DecidableEq, Repr

structure Activation where
  code : List Instr
  stage : Stage
  /-- Levels to restore when the first instruction is complete, the newest first. -/
  regions : List Level
  /-- Levels left by `enter`, the newest first. -/
  levels : List Level
  /-- Levels kept by guards, the newest first. -/
  guards : List Level

/-- A program that has not begun. -/
def Activation.start (code : List Instr) : Activation := ⟨code, .fresh, [], [], []⟩

inductive Handler where
  | alarm (index : Nat)
  /-- Runs its actions on each of the ticks left. -/
  | routine (left : Nat) (body : List Action)

/-- Who executes an instruction. -/
inductive Actor where
  | main
  | timer
  | thread (t : ThreadId)
deriving DecidableEq, Repr

def Actor.name : Actor → String
  | main => "main"
  | timer => "timer"
  | thread t => s!"t{t.number}"

/-- A completed instruction: by whom, when, and what it returned. -/
structure Event where
  actor : Actor
  time : Nat
  instr : Instr
  result : Value

structure System where
  kernel : Kernel Activation
  handlers : List Handler
  locks : List Lock
  conditions : List Condition
  alarms : List Alarm
  /-- A dropped queue leaves its index behind. -/
  waitQueues : List (Option QueueId)
  /-- Of the variables ever written. -/
  values : KeyMap Nat Int
  programs : List Program
  /-- In order of their spawning. -/
  spawned : List ThreadId
  /-- The newest first. -/
  events : List Event

namespace System

def start (k : Kernel Activation) (programs : List Program) : System :=
  ⟨k, [], [], [], [], [], ∅, programs, [], []⟩

/-- The element at an index that a program names. -/
def fetch {α : Type} (l : List α) (i : Nat) : Except Fault α :=
  match l[i]? with
  | some a => .ok a
  | none => .error (.noSuchObject l.length i)

/-- A wait queue that was not dropped. -/
def waitQueue (s : System) (i : Nat) : Except Fault QueueId :=
  match fetch s.waitQueues i with
  | .error e => .error e
  | .ok none => .error (.noSuchObject s.waitQueues.length i)
  | .ok (some q) => .ok q

def valueOf (s : System) (v : Nat) : Int := (s.values.get? v).getD 0

def assign (v : Nat) (x : Int) (s : System) : System :=
  { s with values := s.values.insert v x }

/-- Whether the handler may still make a thread ready. -/
def isPending (s : System) : Handler → Bool
  | .alarm i =>
    match s.alarms[i]? with
    | some a => a.isPending
    | none => false
  | .routine left _ => 0 < left

def hasPendingTimers (s : System) : Bool := s.handlers.any s.isPending

/-! ## Effects -/

/-- What an action returns and leaves. -/
abbrev Effect := Except Fault (Value × System)

/-- An action that only asks. -/
def answer (s : System) (r : Except Fault Value) : Effect :=
  match r with
  | .error e => .error e
  | .ok v => .ok (v, s)

/-- An action that changes the kernel and returns nothing. -/
def change (s : System) (r : Except Fault (Kernel Activation)) : Effect :=
  match r with
  | .error e => .error e
  | .ok k => .ok (.nothing, { s with kernel := k })

/-- An action on a thread. -/
def onThread (s : System) (t : ThreadRef) (f : ThreadId → Effect) : Effect :=
  match t.resolve s.kernel with
  | .error e => .error e
  | .ok t => f t

def spawn (i : Nat) (s : System) : Effect :=
  match fetch s.programs i with
  | .error e => .error e
  | .ok p =>
    match s.kernel.spawn p.name (.start p.code) with
    | .error e => .error e
    | .ok (t, k) => .ok (.ofThread t, { s with kernel := k, spawned := s.spawned ++ [t] })

/-- Serves a queue and returns the thread it was handed to. -/
def serve (q : QueueId) (s : System) : Effect :=
  match s.kernel.nextThread q with
  | .error e => .error e
  | .ok (t, k) => .ok (.ofThreadOption t, { s with kernel := k })

def shift (s : System) (r : Except Fault (Bool × Kernel Activation)) : Effect :=
  match r with
  | .error e => .error e
  | .ok (changed, k) => .ok (.flag changed, { s with kernel := k })

def newWaitQueue (transfer : Bool) (s : System) : Effect :=
  let (q, k) := s.kernel.createQueue transfer
  .ok (.ofQueue q, { s with kernel := k, waitQueues := s.waitQueues ++ [some q] })

def dropWaitQueue (i : Nat) (s : System) : Effect :=
  match s.waitQueue i with
  | .error e => .error e
  | .ok q => { s with waitQueues := s.waitQueues.set i none }.change (s.kernel.destroyQueue q)

/-- An action on a wait queue. -/
def onWaitQueue (i : Nat) (s : System) (f : QueueId → Effect) : Effect :=
  match s.waitQueue i with
  | .error e => .error e
  | .ok q => f q

def numWaiters (q : QueueId) (s : System) : Effect := s.answer ((s.kernel.numWaiters q).map .ofNat)

def owner (q : QueueId) (s : System) : Effect :=
  s.answer ((s.kernel.queueOwner q).map .ofThreadOption)

def size (q : QueueId) (s : System) : Effect :=
  s.answer ((s.kernel.numWaiters q).map fun n => .items [.ofNat n, .flag (n == 0)])

def newLock (s : System) : Effect :=
  let (l, k) := Lock.create s.kernel
  .ok (.nothing, { s with kernel := k, locks := s.locks ++ [l] })

/-- A question about a lock. -/
def askLock (l : Nat) (s : System) (f : Lock → Value) : Effect :=
  s.answer ((fetch s.locks l).map f)

def releaseLock (l : Nat) (s : System) : Effect :=
  match fetch s.locks l with
  | .error e => .error e
  | .ok lock =>
    match lock.release s.kernel with
    | .error e => .error e
    | .ok (lock, k) => .ok (.nothing, { s with kernel := k, locks := s.locks.set l lock })

def newCondition (l : Nat) (s : System) : Effect :=
  match fetch s.locks l with
  | .error e => .error e
  | .ok _ =>
    let (c, k) := Condition.create l s.kernel
    .ok (.nothing, { s with kernel := k, conditions := s.conditions ++ [c] })

/-- A change of the kernel through a condition and its lock. -/
def onCondition (c : Nat) (s : System)
    (f : Condition → Lock → Kernel Activation → Except Fault (Kernel Activation)) : Effect :=
  match fetch s.conditions c with
  | .error e => .error e
  | .ok c =>
    match fetch s.locks c.lock with
    | .error e => .error e
    | .ok l => s.change (f c l s.kernel)

def sleepers (c : Nat) (s : System) : Effect :=
  match fetch s.conditions c with
  | .error e => .error e
  | .ok c => s.numWaiters c.queue

/-- A new alarm has a timer handler. -/
def newAlarm (s : System) : Effect :=
  .ok (.nothing, { s with
    alarms := s.alarms ++ [.empty]
    handlers := s.handlers ++ [.alarm s.alarms.length] })

def newTimer (ticks : Nat) (body : List Action) (s : System) : Effect :=
  .ok (.nothing, { s with handlers := s.handlers ++ [.routine ticks body] })

/-- Sets a variable and returns its value. -/
def store (v : Nat) (x : Int) (s : System) : Effect := .ok (.number x, s.assign v x)

/-- The effect of an action. Actions that concern the regions of the program itself, and `run`, are
left to the machine and do nothing here. -/
def perform (s : System) : Action → Effect
  | .atomic _ | .enter | .exit | .guard | .unguard | .run => .ok (.nothing, s)
  | .inAtomic => .ok (.flag s.kernel.inAtomic, s)
  | .assertAtomic operation => s.answer ((s.kernel.requireAtomic operation).map fun _ => .nothing)
  | .note v => .ok (v, s)
  | .now => .ok (.ofNat s.kernel.now, s)
  | .policy => .ok (.text s.kernel.policy.name, s)
  | .bounds => .ok (.ofBounds s.kernel.bounds, s)
  | .current => s.answer (s.kernel.currentThread.map .ofThread)
  | .tryCurrent => .ok (.ofThreadOption s.kernel.registry.current, s)
  | .alive t => s.onThread t fun t => .ok (.flag (s.kernel.isAlive t), s)
  | .numThreads => .ok (.ofNat s.kernel.numThreads, s)
  | .spawn i => s.spawn i
  | .markReady t => s.onThread t fun t => s.change (s.kernel.markReady t)
  | .getPriority t => s.onThread t fun t => s.answer ((s.kernel.getPriority t).map .ofNat)
  | .getEffective t => s.onThread t fun t => s.answer ((s.kernel.getEffective t).map .ofNat)
  | .setPriority t p => s.onThread t fun t => s.change (s.kernel.setPriority t p)
  | .increasePriority => s.shift s.kernel.increasePriority
  | .decreasePriority => s.shift s.kernel.decreasePriority
  | .createQueue transfer =>
    let (q, k) := s.kernel.createQueue transfer
    .ok (.ofQueue q, { s with kernel := k })
  | .destroyQueue q => s.change (s.kernel.destroyQueue q)
  | .waitOn q t => s.onThread t fun t => s.change (s.kernel.waitForAccess q t)
  | .acquireQueue q t => s.onThread t fun t => s.change (s.kernel.acquire q t)
  | .serve q => s.serve q
  | .ownerOf q => s.owner q
  | .waitersOf q => s.numWaiters q
  | .newWaitQueue transfer => s.newWaitQueue transfer
  | .dropWaitQueue i => s.dropWaitQueue i
  | .waitQueueWait i t =>
    s.onThread t fun t => s.onWaitQueue i fun q => s.change (s.kernel.waitForAccess q t)
  | .waitQueueAcquire i t =>
    s.onThread t fun t => s.onWaitQueue i fun q => s.change (s.kernel.acquire q t)
  | .waitQueueNext i => s.onWaitQueue i fun q => s.serve q
  | .waitQueueOwner i => s.onWaitQueue i fun q => s.owner q
  | .waitQueueSize i => s.onWaitQueue i fun q => s.size q
  | .newLock => s.newLock
  | .release l => s.releaseLock l
  | .held l => s.askLock l fun l => .flag (l.isHeldByCurrent s.kernel)
  | .holder l => s.askLock l fun l => .ofThreadOption l.holder
  | .newCondition l => s.newCondition l
  | .wake c => s.onCondition c Condition.wake
  | .wakeAll c => s.onCondition c Condition.wakeAll
  | .sleepers c => s.sleepers c
  | .newAlarm => s.newAlarm
  | .alarmSleepers a => s.answer ((fetch s.alarms a).map fun a => .ofNat a.sleepers.length)
  | .timer ticks body => s.newTimer ticks body
  | .set v x => s.store v x
  | .add v x => s.store v (s.valueOf v + x)
  | .copy v w => s.store v (s.valueOf w)
  | .read v => .ok (.number (s.valueOf v), s)

end System
end ThreadKernel
