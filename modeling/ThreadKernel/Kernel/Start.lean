import ThreadKernel.Kernel.Initial
import ThreadKernel.Xoshiro

/-!
# ThreadKernel.Kernel.Start

The kernel that programs run on: as configured, with the generator for its draws.
-/

namespace ThreadKernel.Kernel

variable {κ : Type}

def boot (c : Config) (env : Environment) : Except Fault (Except Fail (Kernel κ)) :=
  configured .xoshiro c env

end ThreadKernel.Kernel
