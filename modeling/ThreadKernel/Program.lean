import ThreadKernel.Kernel.Basic

/-!
# ThreadKernel.Program

The instructions of programs, and the values that instructions return.

* `Action`  — what threads, timer handlers and the main program may do. No action suspends.
* `Instr`   — an action, an instruction that suspends the thread, or control flow over variables.
* `Program` — a name and the instructions of a thread.
* `Value`   — what an instruction returns.
-/

namespace ThreadKernel

inductive Value where
  | nothing
  | flag (b : Bool)
  | number (n : Int)
  | text (s : String)
  | items (vs : List Value)
  /-- Named values. -/
  | fields (vs : List (String × Value))
  | failure (f : Fail)
deriving Inhabited

namespace Value

def ofThread (t : ThreadId) : Value := .number t.number

def ofThreadOption : Option ThreadId → Value
  | none => .nothing
  | some t => .ofThread t

def ofQueue (q : QueueId) : Value := .number q.number

def ofNat (n : Nat) : Value := .number n

def ofBounds (b : Bounds) : Value := .items [.ofNat b.least, .ofNat b.initial, .ofNat b.greatest]

end Value

/-- A thread by its number, or the one that runs. -/
inductive ThreadRef where
  | named (t : ThreadId)
  | self
deriving DecidableEq, Repr

def ThreadRef.resolve {κ : Type} (k : Kernel κ) : ThreadRef → Except Fault ThreadId
  | named t => .ok t
  | self => k.currentThread

inductive Action where
  -- the atomic region
  | atomic (a : Action)
  | enter
  | exit
  | guard
  | unguard
  | inAtomic
  | assertAtomic (operation : String)
  -- questions
  | note (v : Value)
  | now
  | policy
  | bounds
  | current
  | tryCurrent
  | alive (t : ThreadRef)
  | numThreads
  -- threads and priorities
  | spawn (program : Nat)
  | run
  | markReady (t : ThreadRef)
  | getPriority (t : ThreadRef)
  | getEffective (t : ThreadRef)
  | setPriority (t : ThreadRef) (p : Nat)
  | increasePriority
  | decreasePriority
  -- queues by number
  | createQueue (transfer : Bool)
  | destroyQueue (q : QueueId)
  | waitOn (q : QueueId) (t : ThreadRef)
  | acquireQueue (q : QueueId) (t : ThreadRef)
  | serve (q : QueueId)
  | ownerOf (q : QueueId)
  | waitersOf (q : QueueId)
  -- wait queues of the program, by index
  | newWaitQueue (transfer : Bool)
  | dropWaitQueue (i : Nat)
  | waitQueueWait (i : Nat) (t : ThreadRef)
  | waitQueueAcquire (i : Nat) (t : ThreadRef)
  | waitQueueNext (i : Nat)
  | waitQueueOwner (i : Nat)
  | waitQueueSize (i : Nat)
  -- locks, conditions and alarms, by index
  | newLock
  | release (l : Nat)
  | held (l : Nat)
  | holder (l : Nat)
  | newCondition (l : Nat)
  | wake (c : Nat)
  | wakeAll (c : Nat)
  | sleepers (c : Nat)
  | newAlarm
  | alarmSleepers (a : Nat)
  | timer (ticks : Nat) (body : List Action)
  -- variables
  | set (v : Nat) (x : Int)
  | add (v : Nat) (x : Int)
  | copy (v w : Nat)
  | read (v : Nat)

/-- The word for an action in the log. -/
def Action.word : Action → String
  | atomic a => a.word
  | enter => "enter"
  | exit => "exit"
  | guard => "guard"
  | unguard => "unguard"
  | inAtomic => "in_atomic"
  | assertAtomic _ => "assert_atomic"
  | note _ => "note"
  | now => "now"
  | policy => "policy"
  | bounds => "bounds"
  | current => "current"
  | tryCurrent => "try_current"
  | alive _ => "alive"
  | numThreads => "num_threads"
  | spawn _ => "spawn"
  | run => "run"
  | markReady _ => "mark_ready"
  | getPriority _ => "get_pri"
  | getEffective _ => "get_eff"
  | setPriority _ _ => "set_pri"
  | increasePriority => "inc"
  | decreasePriority => "dec"
  | createQueue _ => "k_create"
  | destroyQueue _ => "k_destroy"
  | waitOn _ _ => "k_wait"
  | acquireQueue _ _ => "k_acquire"
  | serve _ => "k_next"
  | ownerOf _ => "k_owner"
  | waitersOf _ => "k_num"
  | newWaitQueue _ => "queue_new"
  | dropWaitQueue _ => "queue_drop"
  | waitQueueWait _ _ => "q_wait"
  | waitQueueAcquire _ _ => "q_acquire"
  | waitQueueNext _ => "q_next"
  | waitQueueOwner _ => "q_owner"
  | waitQueueSize _ => "q_len"
  | newLock => "lock_new"
  | release _ => "release"
  | held _ => "held"
  | holder _ => "holder"
  | newCondition _ => "cond_new"
  | wake _ => "wake"
  | wakeAll _ => "wake_all"
  | sleepers _ => "sleepers"
  | newAlarm => "alarm_new"
  | alarmSleepers _ => "alarm_sleepers"
  | timer _ _ => "timer"
  | set _ _ => "set"
  | add _ _ => "add"
  | copy _ _ => "copy"
  | read _ => "read"

inductive Instr where
  | act (a : Action)
  -- instructions that suspend the thread
  | yield
  | block
  | join (t : ThreadRef)
  | acquire (l : Nat)
  | sleep (c : Nat)
  | wait (a ticks : Nat)
  -- control flow
  | loop (n : Nat) (body : List Instr)
  | whileEq (v : Nat) (x : Int) (body : List Instr)
  | whileNe (v : Nat) (x : Int) (body : List Instr)
  | whileSame (v w : Nat) (body : List Instr)
  | ifEq (v : Nat) (x : Int) (body : List Instr)

/-- The word for an instruction in the log. Control flow is not logged. -/
def Instr.word : Instr → String
  | act a => a.word
  | yield => "yield"
  | block => "block"
  | join _ => "join"
  | acquire _ => "acquire"
  | sleep _ => "sleep"
  | wait _ _ => "wait"
  | loop _ _ => "repeat"
  | whileEq _ _ _ => "while_eq"
  | whileNe _ _ _ => "while_ne"
  | whileSame _ _ _ => "while_same"
  | ifEq _ _ _ => "if_eq"

structure Program where
  name : String
  code : List Instr

end ThreadKernel
