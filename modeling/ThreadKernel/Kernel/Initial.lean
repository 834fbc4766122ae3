import ThreadKernel.Config
import ThreadKernel.Kernel.Basic

/-!
# ThreadKernel.Kernel.Initial

A new kernel: no thread, time zero, interrupts enabled, and the ready queue as its only queue. Its
lottery draws with any generator.

* `Kernel.start` — from settings; `Kernel.configured` — from a configuration and the environment.
-/

namespace ThreadKernel.Kernel

variable {κ : Type}

def start (gen : Generator) (s : Settings) : Except Fault (Kernel κ) :=
  match Clock.start s.timerInterval with
  | .error e => .error e
  | .ok clock =>
    let (readyQueue, table) := (Table.empty s.policy (gen.start s.seed)).createQueue false
    .ok ⟨.empty, table, .enabled, clock, s.ticksPerDispatch, readyQueue⟩

/-- A kernel as configured, or the failure of the first parameter that is wrong. -/
def configured (gen : Generator) (c : Config) (env : Environment) :
    Except Fault (Except Fail (Kernel κ)) :=
  match c.settings env with
  | .error e => .ok (.error e.toFail)
  | .ok s =>
    match start gen s with
    | .error e => .error e
    | .ok k => .ok (.ok k)

end ThreadKernel.Kernel
