import ThreadKernel.Policy
import ThreadKernel.Storage
import ThreadKernel.Text.Numeral
import ThreadKernel.Yaml.Document

/-!
# ThreadKernel.Config

The configuration of a kernel: four parameters in the `scheduler` section of a document. For the
policy and the seed the environment decides alone if it says anything.

* `Environment.ofVariables` — what the environment says about them.
* `Config.read`, `Config.parse` — from a file, from a text.
* `Config.policy`, `seed`, `timerInterval`, `ticksPerDispatch` — the parameters.
* `Config.settings` — all of them, or the first error.
-/

namespace ThreadKernel

inductive Parameter where
  | schedulingPolicy
  | timerInterval
  | ticksPerDispatch
  | rngSeed
deriving DecidableEq, Repr

/-- The key of a parameter in its section. -/
def Parameter.key : Parameter → String
  | schedulingPolicy => "scheduling_policy"
  | timerInterval => "timer_interval"
  | ticksPerDispatch => "ticks_per_dispatch"
  | rngSeed => "rng_seed"

/-- The name of the variable that may set the parameter. -/
def Parameter.variableName (p : Parameter) : String := p.key.toUpper

inductive ConfigError where
  | unreadable (path : String) (e : StorageError)
  | malformed
  | documentCount
  | unexpectedType (p : Parameter)
  | outOfRange (p : Parameter)
  | notPositive (p : Parameter)
deriving DecidableEq, Repr

def ConfigError.toFail : ConfigError → Fail
  | unreadable path e =>
    ⟨e.errno, s!"cannot read configuration file (path={Text.quoted path}): {e.text}"⟩
  | malformed => ⟨Errno.invalid, "malformed configuration"⟩
  | documentCount => ⟨Errno.invalid, "Wrong number of config objects"⟩
  | unexpectedType p => ⟨Errno.invalid, s!"parameter {p.key} has unexpected type"⟩
  | outOfRange p => ⟨Errno.range, s!"parameter {Text.quoted p.key} is out of range"⟩
  | notPositive p => ⟨Errno.range, s!"parameter {Text.quoted p.key} must be positive"⟩

/-- What the environment says about the parameters it may set. -/
structure Environment where
  policy : Option String
  seed : Option String
deriving DecidableEq, Repr

/-- What variables with these values say. -/
def Environment.ofVariables (value? : String → Option String) : Environment :=
  ⟨value? Parameter.schedulingPolicy.variableName, value? Parameter.rngSeed.variableName⟩

structure Config where
  document : Yaml.Node

structure Settings where
  policy : Policy
  /-- Without a seed the draw of the lottery is not fixed. -/
  seed : Option Nat
  timerInterval : Nat
  ticksPerDispatch : Nat
deriving DecidableEq, Repr

namespace Config

/-- An empty configuration. -/
def standard : Config := ⟨.null⟩

def standardTimerInterval : Nat := 500

def standardTicksPerDispatch : Nat := 10

/-- A text is a configuration if it has exactly one document. -/
def parse (text : String) : Except ConfigError Config :=
  match Yaml.documents? text with
  | none => .error .malformed
  | some [document] => .ok ⟨document⟩
  | some _ => .error .documentCount

def read (s : Storage) (path : String) : Except ConfigError Config :=
  match s.readText path with
  | .error e => .error (.unreadable path e)
  | .ok text => parse text

/-- The value of a parameter. A section that is no mapping has no parameters. -/
def value? (c : Config) (p : Parameter) : Option Yaml.Node :=
  (c.document.field? "scheduler").bind (Yaml.Node.field? p.key)

/-- A number is an integer, and not negative. -/
def number (p : Parameter) : Yaml.Node → Except ConfigError Nat
  | .integer n => if 0 ≤ n then .ok n.toNat else .error (.outOfRange p)
  | _ => .error (.unexpectedType p)

/-- A value that is present is never replaced by the standard one. -/
def numberOr (c : Config) (p : Parameter) (standard : Nat) : Except ConfigError Nat :=
  match c.value? p with
  | none => .ok standard
  | some v => number p v

def policy (c : Config) (env : Environment) : Except ConfigError Policy :=
  let named (name : String) : Except ConfigError Policy :=
    match Policy.named? name with
    | some p => .ok p
    | none => .error (.unexpectedType .schedulingPolicy)
  match env.policy with
  | some name => named name
  | none =>
    match c.value? .schedulingPolicy with
    | none => .ok .standard
    | some (.string name) => named name
    | some _ => .error (.unexpectedType .schedulingPolicy)

def seed (c : Config) (env : Environment) : Except ConfigError (Option Nat) :=
  match env.seed with
  | some text =>
    match Text.word64? text.toList with
    | some n => .ok (some n)
    | none => .error (.unexpectedType .rngSeed)
  | none =>
    match c.value? .rngSeed with
    | none => .ok none
    | some v => (number .rngSeed v).map some

def timerInterval (c : Config) : Except ConfigError Nat :=
  match c.numberOr .timerInterval standardTimerInterval with
  | .error e => .error e
  | .ok n => if n = 0 then .error (.notPositive .timerInterval) else .ok n

def ticksPerDispatch (c : Config) : Except ConfigError Nat :=
  c.numberOr .ticksPerDispatch standardTicksPerDispatch

/-- All parameters, or the error of the first one that is wrong. -/
def settings (c : Config) (env : Environment) : Except ConfigError Settings :=
  match c.policy env with
  | .error e => .error e
  | .ok policy =>
    match c.seed env with
    | .error e => .error e
    | .ok seed =>
      match c.timerInterval with
      | .error e => .error e
      | .ok interval =>
        match c.ticksPerDispatch with
        | .error e => .error e
        | .ok ticks => .ok ⟨policy, seed, interval, ticks⟩

end Config
end ThreadKernel
