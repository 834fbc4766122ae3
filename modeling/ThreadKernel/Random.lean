/-!
# ThreadKernel.Random

The random source of the lottery. What draws the numbers is a parameter: a generator may draw
anything, as long as a draw below `n` is below `n`.

* `Generator`          — what it starts with for a seed, and what it draws.
* `Random`             — a generator in one of its states, with `Random.below`, a draw below `n`.
* `Generator.counting` — the simplest generator: it counts its draws, from the seed on.
-/

namespace ThreadKernel

structure Generator where
  /-- The state that a seed gives. Without a seed the generator starts as it likes. -/
  seeded : Option Nat → Nat
  /-- A draw below `n` in a state, and the state after it. -/
  draw (n state : Nat) : Nat × Nat
  /-- The one thing that is used of a draw. -/
  draw_lt : ∀ {n : Nat} (state : Nat), 0 < n → (draw n state).1 < n

structure Random where
  generator : Generator
  state : Nat

def Generator.start (gen : Generator) (seed : Option Nat) : Random := ⟨gen, gen.seeded seed⟩

namespace Random

/-- A draw below `n`, and the source after it. -/
def below (n : Nat) (g : Random) : Nat × Random :=
  let (draw, state) := g.generator.draw n g.state
  (draw, ⟨g.generator, state⟩)

theorem below_lt {n : Nat} (hn : 0 < n) (g : Random) : (below n g).1 < n :=
  g.generator.draw_lt g.state hn

end Random

def Generator.counting : Generator where
  seeded seed := seed.getD 0
  draw n state := (state % n, state + 1)
  draw_lt state hn := Nat.mod_lt state hn

def Random.counting : Random := Generator.counting.start none

end ThreadKernel
