import ThreadKernel.System

/-!
# ThreadKernel.Machine.Code

One step of a program. The first instruction of an activation is begun, polled at its yield point,
or completed; completing it writes the log.

* `Progress`   — what a step of a program leads to.
* `stepAction` — a step of an action; `stepInstr` — of any instruction.
* `stepCode`   — a step of an activation.
-/

namespace ThreadKernel

inductive Progress where
  /-- The program goes on. -/
  | go (a : Activation) (s : System)
  /-- The program suspends its thread. -/
  | park (a : Activation) (s : System)
  /-- The program runs the kernel; its first instruction waits for the result. -/
  | call (a : Activation) (s : System)
  /-- No instruction is left. -/
  | done (a : Activation) (s : System)

namespace System

def withKernel (s : System) (k : Kernel Activation) : System := { s with kernel := k }

def log (actor : Actor) (i : Instr) (v : Value) (s : System) : System :=
  { s with events := ⟨actor, s.kernel.now, i, v⟩ :: s.events }

/-- Completes the first instruction: leaves the regions around it and logs its result. -/
def complete (actor : Actor) (v : Value) (a : Activation) (s : System) : Activation × System :=
  match a.code with
  | [] => (a, s)
  | i :: rest =>
    ({ a with code := rest, stage := .fresh, regions := [] },
      (s.withKernel (s.kernel.restoreAll a.regions)).log actor i v)

/-- The program goes on behind its first instruction, which returned `v`. -/
def returns (actor : Actor) (v : Value) (a : Activation) (s : System) : Except Fault Progress :=
  let (a, s) := s.complete actor v a
  .ok (.go a s)

/-- The running thread blocks until it is woken, and then does what `r` says. -/
def blocks (r : Resume) (a : Activation) (s : System) : Except Fault Progress :=
  match s.kernel.blockingThread with
  | .error e => .error e
  | .ok _ => .ok (.go { a with stage := .suspended .untilWake r } s)

/-! ## Beginning an instruction -/

/-- Restores the newest of some saved levels; without any, does nothing. -/
def leaveNewest (saved : List Level) (s : System) : System :=
  match saved with
  | [] => s
  | l :: _ => s.withKernel (s.kernel.restore l)

def levelValue (l : Level) : Value := .text l.name

def stepAction (actor : Actor) (b : Action) (rest : List Instr) (a : Activation) (s : System) :
    Except Fault Progress :=
  let level := s.kernel.level
  match b with
  | .atomic b =>
    .ok (.go { a with code := .act b :: rest, regions := level :: a.regions }
      (s.withKernel s.kernel.enter))
  | .enter =>
    (s.withKernel s.kernel.enter).returns actor (levelValue level)
      { a with levels := level :: a.levels }
  | .exit => (s.leaveNewest a.levels).returns actor .nothing { a with levels := a.levels.tail }
  | .guard =>
    (s.withKernel s.kernel.enter).returns actor (levelValue level)
      { a with guards := level :: a.guards }
  | .unguard => (s.leaveNewest a.guards).returns actor .nothing { a with guards := a.guards.tail }
  | .run =>
    match s.kernel.registry.current with
    | some t => .error (.runInsideThread t)
    | none => .ok (.call a s)
  | b =>
    match s.perform b with
    | .error e => .error e
    | .ok (v, s) => s.returns actor v a

def beginJoin (actor : Actor) (target : ThreadRef) (a : Activation) (s : System) :
    Except Fault Progress :=
  match target.resolve s.kernel with
  | .error e => .error e
  | .ok t =>
    match s.kernel.currentThread with
    | .error e => .error e
    | .ok current =>
      if current = t then .error (.joinSelf t)
      else
        match s.kernel.registry.get? t with
        | none => s.returns actor .nothing a
        | some slot =>
          match s.kernel.enter.waitForAccess slot.joinQueue current with
          | .error e => .error e
          | .ok k => (s.withKernel k).blocks (.leave s.kernel.level) a

def beginAcquire (actor : Actor) (l : Nat) (a : Activation) (s : System) : Except Fault Progress :=
  match fetch s.locks l with
  | .error e => .error e
  | .ok lock =>
    match s.kernel.currentThread with
    | .error e => .error e
    | .ok t =>
      let level := s.kernel.level
      match lock.request t s.kernel.enter with
      | .error e => .error e
      | .ok (granted, lock, k) =>
        let s := { s with kernel := k, locks := s.locks.set l lock }
        if granted then (s.withKernel (s.kernel.restore level)).returns actor .nothing a
        else s.blocks (.takeOver l level) a

def beginSleep (c : Nat) (a : Activation) (s : System) : Except Fault Progress :=
  match fetch s.conditions c with
  | .error e => .error e
  | .ok c =>
    match fetch s.locks c.lock with
    | .error e => .error e
    | .ok lock =>
      match Condition.holder "sleep()" lock s.kernel with
      | .error e => .error e
      | .ok t =>
        match c.fallAsleep t lock s.kernel.enter with
        | .error e => .error e
        | .ok (lock, k) =>
          { s with kernel := k, locks := s.locks.set c.lock lock }.blocks
            (.relock c.lock s.kernel.level) a

def beginWait (i ticks : Nat) (a : Activation) (s : System) : Except Fault Progress :=
  match fetch s.alarms i with
  | .error e => .error e
  | .ok alarm =>
    match s.kernel.currentThread with
    | .error e => .error e
    | .ok t =>
      let alarm := alarm.push (Clock.after s.kernel.now ticks) t
      { s with kernel := s.kernel.enter, alarms := s.alarms.set i alarm }.blocks
        (.leave s.kernel.level) a

/-- Begins the instruction in front of `rest`. -/
def stepInstr (actor : Actor) (i : Instr) (rest : List Instr) (a : Activation) (s : System) :
    Except Fault Progress :=
  let goTo (code : List Instr) : Except Fault Progress := .ok (.go { a with code := code } s)
  match i with
  | .act b => s.stepAction actor b rest a
  | .yield =>
    match s.kernel.yieldingThread with
    | .error e => .error e
    | .ok _ => .ok (.go { a with stage := .suspended .yieldOnce .proceed } s)
  | .block => s.blocks .proceed a
  | .join t => s.beginJoin actor t a
  | .acquire l => s.beginAcquire actor l a
  | .sleep c => s.beginSleep c a
  | .wait i ticks => s.beginWait i ticks a
  | .loop 0 _ => goTo rest
  | .loop (n + 1) body => goTo (body ++ .loop n body :: rest)
  | .whileEq v x body => goTo (if s.valueOf v = x then body ++ i :: rest else rest)
  | .whileNe v x body => goTo (if s.valueOf v = x then rest else body ++ i :: rest)
  | .whileSame v w body =>
    goTo (if s.valueOf v = s.valueOf w then body ++ i :: rest else rest)
  | .ifEq v x body => goTo (if s.valueOf v = x then body ++ rest else rest)

/-! ## Going on behind a yield point -/

def stepResume (actor : Actor) (t : ThreadId) (r : Resume) (a : Activation) (s : System) :
    Except Fault Progress :=
  match r with
  | .proceed => s.returns actor .nothing a
  | .leave level => (s.withKernel (s.kernel.restore level)).returns actor .nothing a
  | .takeOver l level =>
    match fetch s.locks l with
    | .error e => .error e
    | .ok lock =>
      if lock.holder = some t then
        (s.withKernel (s.kernel.restore level)).returns actor .nothing a
      else .error (.lockNotHandedOver t lock.holder)
  | .relock l level => (s.withKernel (s.kernel.restore level)).beginAcquire actor l a

/-- Polls the yield point at which the first instruction waits. -/
def stepPoint (actor : Actor) (p : YieldPoint) (r : Resume) (a : Activation) (s : System) :
    Except Fault Progress :=
  match s.kernel.currentThread with
  | .error e => .error e
  | .ok t =>
    let (ready, p, k) := s.kernel.pollPoint t p
    if ready then (s.withKernel k).stepResume actor t r a
    else .ok (.park { a with stage := .suspended p r } (s.withKernel k))

/-- One step of an activation. -/
def stepCode (actor : Actor) (a : Activation) (s : System) : Except Fault Progress :=
  match a.code, a.stage with
  | [], _ => .ok (.done a s)
  | i :: rest, .fresh => s.stepInstr actor i rest a
  | _ :: _, .suspended p r => s.stepPoint actor p r a

end System
end ThreadKernel
