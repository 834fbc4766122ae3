import ThreadKernel.Machine.Code

/-!
# ThreadKernel.Machine.Step

The whole system as a machine with a stack: programs call the run loop, which dispatches threads and
delivers timer interrupts, whose handlers are programs again.

* `Frame`, `Machine` — the state. The first frame of the stack is the one that runs.
* `Machine.step`     — one step: of a program, of the run loop, or of a delivery.
* `Machine.Steps`    — what finitely many steps lead to.
* `Machine.run`      — the machine after as many steps as its fuel allows.

A machine whose first frame is a loop at its `tick` phase stands between two dispatches.
-/

namespace ThreadKernel

inductive Phase where
  /-- An iteration begins: a due interrupt is delivered. -/
  | tick
  /-- The next thread is chosen. -/
  | choose
deriving DecidableEq, Repr

inductive Frame where
  /-- The main program, or a program run by a timer handler. -/
  | program (actor : Actor) (a : Activation)
  | thread (d : Kernel.Dispatched Activation)
  | loop (phase : Phase)
  /-- The level to restore, the handlers called by this delivery, and those it has yet to call. -/
  | delivery (previous : Level) (called waiting : List Handler)

structure Machine where
  system : System
  stack : List Frame

/-- The failure of a run that leaves threads behind. -/
def Fail.stuck (blocked now : Nat) : Fail :=
  ⟨Errno.deadlock, s!"no runnable threads left (blocked={blocked}, now={now})"⟩

namespace Machine

/-- What a step leads to. -/
inductive Outcome where
  | next (m : Machine)
  /-- The main program is at its end. -/
  | halted
  | faulted (f : Fault)

/-- The main program in front of a system. -/
def start (k : Kernel Activation) (programs : List Program) (main : List Action) : Machine :=
  ⟨.start k programs, [.program .main (.start (main.map .act))]⟩

def stepProgram (actor : Actor) (a : Activation) (below : List Frame) (s : System) : Outcome :=
  match s.stepCode actor a with
  | .error e => .faulted e
  | .ok (.go a s) => .next ⟨s, .program actor a :: below⟩
  | .ok (.park a s) => .next ⟨s, .program actor a :: below⟩
  | .ok (.call a s) => .next ⟨s, .loop .tick :: .program actor a :: below⟩
  | .ok (.done a s) =>
    match below with
    | [] => .halted
    | _ :: _ => .next ⟨s.withKernel (s.kernel.restoreAll a.guards), below⟩

/-- The dispatch of a thread ends, and its cost is charged. -/
def endDispatch (r : Except Fault (Kernel Activation)) (below : List Frame) (s : System) :
    Outcome :=
  match r with
  | .error e => .faulted e
  | .ok k => .next ⟨s.withKernel k.charge, below⟩

def stepThread (d : Kernel.Dispatched Activation) (below : List Frame) (s : System) : Outcome :=
  let holding (a : Activation) : Kernel.Dispatched Activation :=
    { d with task := { d.task with coroutine := a } }
  match s.stepCode (.thread d.thread) d.task.coroutine with
  | .error e => .faulted e
  | .ok (.go a s) => .next ⟨s, .thread (holding a) :: below⟩
  | .ok (.park a s) => endDispatch (s.kernel.park (holding a)) below s
  | .ok (.call a s) => .next ⟨s, .loop .tick :: .thread (holding a) :: below⟩
  | .ok (.done a s) => endDispatch ((s.kernel.restoreAll a.guards).finish d) below s

/-- An iteration of the run loop begins. While an interrupt is delivered the list of handlers is
empty and takes those that are registered meanwhile. -/
def stepTick (below : List Frame) (s : System) : Outcome :=
  match s.kernel.clock.takeTick? with
  | none => .next ⟨s, .loop .choose :: below⟩
  | some clock =>
    .next ⟨{ s with kernel := { s.kernel.enter with clock := clock }, handlers := [] },
      .delivery s.kernel.level [] s.handlers :: .loop .choose :: below⟩

def stepDelivery (previous : Level) (called waiting : List Handler) (below : List Frame)
    (s : System) : Outcome :=
  match waiting with
  | [] =>
    .next ⟨{ s with kernel := s.kernel.restore previous, handlers := called ++ s.handlers }, below⟩
  | .alarm i :: waiting =>
    let below := .delivery previous (called ++ [.alarm i]) waiting :: below
    match s.alarms[i]? with
    | none => .next ⟨s, below⟩
    | some alarm =>
      match alarm.release s.kernel with
      | .error e => .faulted e
      | .ok (alarm, k) => .next ⟨{ s with kernel := k, alarms := s.alarms.set i alarm }, below⟩
  | .routine 0 body :: waiting =>
    .next ⟨s, .delivery previous (called ++ [.routine 0 body]) waiting :: below⟩
  | .routine (n + 1) body :: waiting =>
    .next ⟨s, .program .timer (.start (body.map .act)) ::
      .delivery previous (called ++ [.routine n body]) waiting :: below⟩

/-- The run loop returns to the program that called it. -/
def returnFrom (v : Value) (below : List Frame) (s : System) : Outcome :=
  match below with
  | .program actor a :: below =>
    let (a, s) := s.complete actor v a
    .next ⟨s, .program actor a :: below⟩
  | below => .next ⟨s, below⟩

/-- The run loop dispatches the thread it chose. A retired one only costs its time. -/
def stepDispatch (t : ThreadId) (below : List Frame) (s : System) : Outcome :=
  match s.kernel.dispatch t with
  | .error e => .faulted e
  | .ok none => .next ⟨s.withKernel s.kernel.charge, .loop .tick :: below⟩
  | .ok (some (d, k)) => .next ⟨s.withKernel k, .thread d :: .loop .tick :: below⟩

/-- The run loop found nobody ready. -/
def stepIdle (below : List Frame) (s : System) : Outcome :=
  if s.kernel.registry.isEmpty then returnFrom (.text "ok") below s
  else if s.hasPendingTimers then
    .next ⟨s.withKernel { s.kernel with clock := s.kernel.clock.fastForward }, .loop .tick :: below⟩
  else returnFrom (.failure (Fail.stuck s.kernel.numThreads s.kernel.now)) below s

def stepChoose (below : List Frame) (s : System) : Outcome :=
  match s.kernel.chooseThread with
  | .error e => .faulted e
  | .ok (some t, k) => stepDispatch t below (s.withKernel k)
  | .ok (none, k) => stepIdle below (s.withKernel k)

def step (m : Machine) : Outcome :=
  match m.stack with
  | [] => .halted
  | .program actor a :: below => stepProgram actor a below m.system
  | .thread d :: below => stepThread d below m.system
  | .loop .tick :: below => stepTick below m.system
  | .loop .choose :: below => stepChoose below m.system
  | .delivery previous called waiting :: below =>
    stepDelivery previous called waiting below m.system

/-- `m'` is reached from `m` by finitely many steps. -/
inductive Steps : Machine → Machine → Prop where
  | refl {m : Machine} : Steps m m
  | cons {m m' m'' : Machine} : step m = .next m' → Steps m' m'' → Steps m m''

/-- How a run ended. -/
inductive Ending where
  | halted
  | faulted (f : Fault)
  /-- The fuel ran out. -/
  | unfinished
deriving DecidableEq, Repr

/-- The last machine of a run, and how the run ended. -/
def run : Nat → Machine → Machine × Ending
  | 0, m => (m, .unfinished)
  | fuel + 1, m =>
    match m.step with
    | .next m' => run fuel m'
    | .halted => (m, .halted)
    | .faulted f => (m, .faulted f)

end Machine
end ThreadKernel
