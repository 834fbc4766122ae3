import ThreadKernel.Random

/-!
# ThreadKernel.Xoshiro

The generator that kernels run with: xoshiro256++ on 64-bit words, seeded from one number, with
unbiased draws below a bound. Nothing is proved about its draws but that they are below the bound.

* `Xoshiro.ofSeed`    — four words from a permuted congruential stream that starts at the seed.
* `Xoshiro.next`      — the next word.
* `Xoshiro.below`     — a draw from `0, …, n - 1`.
* `Generator.xoshiro` — the generator, `Random.ofSeed` a source that it starts.
-/

namespace ThreadKernel

structure Xoshiro where
  s0 : UInt64
  s1 : UInt64
  s2 : UInt64
  s3 : UInt64
deriving DecidableEq, Repr, Inhabited

namespace Xoshiro

def rotateLeft (x k : UInt64) : UInt64 := (x <<< k) ||| (x >>> (64 - k))

/-- The next state of the stream that stretches a seed. -/
def stretch (x : UInt64) : UInt64 := x * 6364136223846793005 + 11634580027462260723

/-- Half a word from a state of that stream: some of its upper bits, folded and rotated. -/
def half (x : UInt64) : UInt64 :=
  let y := (((x >>> 18) ^^^ x) >>> 27).toUInt32
  let r := (x >>> 59).toUInt32
  ((y >>> r) ||| (y <<< (32 - r))).toUInt64

/-- A whole word, the lower half first, and the state of the stream after it. -/
def word (x : UInt64) : UInt64 × UInt64 :=
  let a := stretch x
  let b := stretch a
  (half a ||| (half b <<< 32), b)

def ofSeed (seed : Nat) : Xoshiro :=
  let (s0, x) := word (UInt64.ofNat seed)
  let (s1, x) := word x
  let (s2, x) := word x
  let (s3, _) := word x
  ⟨s0, s1, s2, s3⟩

def next (g : Xoshiro) : UInt64 × Xoshiro :=
  let result := rotateLeft (g.s0 + g.s3) 23 + g.s0
  let s2 := g.s2 ^^^ g.s0
  let s3 := g.s3 ^^^ g.s1
  (result,
    { s0 := g.s0 ^^^ s3
      s1 := g.s1 ^^^ s2
      s2 := s2 ^^^ (g.s1 <<< 17)
      s3 := rotateLeft s3 45 })

/-- How many words there are. -/
def wordCount : Nat := 18446744073709551616

/-- The state as one number, and back. -/
def toNat (g : Xoshiro) : Nat :=
  ((g.s3.toNat * wordCount + g.s2.toNat) * wordCount + g.s1.toNat) * wordCount + g.s0.toNat

def ofNat (n : Nat) : Xoshiro :=
  ⟨.ofNat n, .ofNat (n / wordCount), .ofNat (n / wordCount / wordCount),
    .ofNat (n / wordCount / wordCount / wordCount)⟩

/-- The greatest low word of a product `word * n` that a draw below `n` accepts: every result is
then the high word of equally many products. -/
def zone (n : Nat) : Nat := (n <<< (63 - n.log2)) - 1

/-- Takes the high word of `word * n`, and a new word while the low word lies above the zone. -/
def draw (n : Nat) : Nat → Xoshiro → Nat × Xoshiro
  | 0, g =>
    let (word, g') := g.next
    (word.toNat * n / wordCount, g')
  | retries + 1, g =>
    let (word, g') := g.next
    if word.toNat * n % wordCount ≤ zone n then (word.toNat * n / wordCount, g')
    else draw n retries g'

/-- How many states there are. -/
def stateCount : Nat := wordCount * wordCount * wordCount * wordCount

/-- A draw below `n`. Every word comes up within a period, and no period is longer than there are
states, so a word is accepted before the retries are used up. -/
def below (n : Nat) (g : Xoshiro) : Nat × Xoshiro := draw n stateCount g

theorem draw_lt {n : Nat} (hn : 0 < n) (retries : Nat) (g : Xoshiro) :
    (draw n retries g).1 < n := by
  have key : ∀ w : UInt64, w.toNat * n / wordCount < n := fun w => by
    rw [Nat.div_lt_iff_lt_mul (by decide), Nat.mul_comm n]
    exact Nat.mul_lt_mul_of_pos_right w.toNat_lt hn
  induction retries generalizing g with
  | zero => exact key _
  | succ retries ih =>
    simp only [draw]
    split
    · exact key _
    · exact ih _

end Xoshiro

/-- Without a seed it starts as with the seed zero. -/
def Generator.xoshiro : Generator where
  seeded seed := (Xoshiro.ofSeed (seed.getD 0)).toNat
  draw n state :=
    let (draw, g) := Xoshiro.below n (.ofNat state)
    (draw, g.toNat)
  draw_lt state hn := Xoshiro.draw_lt hn _ (.ofNat state)

def Random.ofSeed (seed : Nat) : Random := Generator.xoshiro.start (some seed)

end ThreadKernel
