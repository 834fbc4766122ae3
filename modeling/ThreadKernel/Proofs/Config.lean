import ThreadKernel.Kernel.Initial
import ThreadKernel.Proofs.Text

/-!
# ThreadKernel.Proofs.Config

What a configuration means, described without the functions that read it, and the kernel that is
started with it.

* `Yaml.Node.Holds`        — a mapping has a value under a key, in its last entry with the key.
* `Config.Entry`, `Missing` — the value of a parameter in the document, or that there is none.
* `Config.ReadsPolicy`, `ReadsSeed`, `ReadsInterval`, `ReadsNumber` — what a parameter amounts to.
* `Config.ReadsSettings`   — all four, or the error of the first one that is wrong.
* `ConfigError.Reports`    — the number and the text that callers get for the error.
* `Kernel.configured_spec` — a kernel starts with just these settings, or fails as reported.
-/

namespace ThreadKernel

/-! ## Values in documents -/

namespace Yaml.Node

/-- The last entry with the string key has the value. -/
def LastEntry (name : String) (v : Node) (entries : List (Node × Node)) : Prop :=
  ∃ before after, entries = before ++ (.string name, v) :: after ∧
    ∀ e ∈ after, e.1 ≠ .string name

/-- The node is a mapping and has the value under the string key. -/
def Holds (n : Node) (name : String) (v : Node) : Prop :=
  ∃ entries, n = .mapping entries ∧ LastEntry name v entries

variable {name : String} {n v : Node} {entries : List (Node × Node)}

theorem isString_iff {k : Node} : k.isString name = true ↔ k = .string name := by
  cases k <;> simp [isString]

theorem lookup_eq_none_iff : lookup name entries = none ↔ ∀ e ∈ entries, e.1 ≠ .string name := by
  induction entries with
  | nil => simp [lookup]
  | cons e entries ih =>
    obtain ⟨k, w⟩ := e
    rw [lookup, List.forall_mem_cons, ← ih]
    cases lookup name entries with
    | some u => simp
    | none => simp [isString_iff]

theorem lookup_eq_some_iff : lookup name entries = some v ↔ LastEntry name v entries := by
  induction entries with
  | nil =>
    refine iff_of_false (fun h => nomatch h) ?_
    rintro ⟨before, after, h, -⟩
    simp at h
  | cons e entries ih =>
    obtain ⟨k, w⟩ := e
    rw [lookup]
    cases hrest : lookup name entries with
    | some u =>
      rw [hrest] at ih
      dsimp only
      rw [ih]
      constructor
      · rintro ⟨before, after, rfl, hlast⟩
        exact ⟨(k, w) :: before, after, rfl, hlast⟩
      · rintro ⟨before, after, hsplit, hlast⟩
        cases before with
        | nil =>
          obtain ⟨-, rfl⟩ := List.cons.inj hsplit
          rw [lookup_eq_none_iff.2 hlast] at hrest
          cases hrest
        | cons e before => exact ⟨before, after, (List.cons.inj hsplit).2, hlast⟩
    | none =>
      rw [hrest] at ih
      dsimp only
      rw [Option.ite_none_right_eq_some, isString_iff]
      constructor
      · rintro ⟨rfl, hw⟩
        cases hw
        exact ⟨[], entries, rfl, lookup_eq_none_iff.1 hrest⟩
      · rintro ⟨before, after, hsplit, hlast⟩
        cases before with
        | nil =>
          obtain ⟨he, -⟩ := List.cons.inj hsplit
          obtain ⟨rfl, rfl⟩ := Prod.mk.inj he
          exact ⟨rfl, rfl⟩
        | cons e before =>
          exact nomatch ih.2 ⟨before, after, (List.cons.inj hsplit).2, hlast⟩

theorem field?_eq_some_iff : n.field? name = some v ↔ n.Holds name v := by
  cases n with
  | mapping entries =>
    rw [field?, lookup_eq_some_iff]
    constructor
    · exact fun h => ⟨entries, rfl, h⟩
    · rintro ⟨entries', he, h⟩
      cases he
      exact h
  | _ =>
    refine iff_of_false (fun h => nomatch h) ?_
    rintro ⟨_, he, -⟩
    cases he

end Yaml.Node

/-! ## Failures -/

/-- What callers get for a parameter with a wrong value: a value of the wrong type is invalid, and a
number of the right type is out of range. -/
inductive ConfigError.Reports : ConfigError → Fail → Prop where
  | unexpectedType (p : Parameter) :
      Reports (.unexpectedType p) ⟨Errno.invalid, "parameter " ++ p.key ++ " has unexpected type"⟩
  | outOfRange (p : Parameter) : Reports (.outOfRange p)
      ⟨Errno.range, "parameter " ++ ("\"" ++ p.key ++ "\"") ++ " is out of range"⟩
  | notPositive (p : Parameter) : Reports (.notPositive p)
      ⟨Errno.range, "parameter " ++ ("\"" ++ p.key ++ "\"") ++ " must be positive"⟩

/-- Keys have nothing that quotes would change. -/
theorem Parameter.quoted_key (p : Parameter) : Text.quoted p.key = "\"" ++ p.key ++ "\"" := by
  cases p <;> decide +kernel

/-- The parameter that has the wrong value, if the error is about one. -/
def ConfigError.parameter? : ConfigError → Option Parameter
  | unexpectedType p | outOfRange p | notPositive p => some p
  | unreadable _ _ | malformed | documentCount => none

theorem ConfigError.reports_toFail {e : ConfigError} {p : Parameter} (h : e.parameter? = some p) :
    e.Reports e.toFail := by
  cases e with
  | unexpectedType p => exact .unexpectedType p
  | outOfRange p =>
    rw [toFail, Parameter.quoted_key]
    exact .outOfRange p
  | notPositive p =>
    rw [toFail, Parameter.quoted_key]
    exact .notPositive p
  | unreadable _ _ | malformed | documentCount => cases h

namespace Config

variable {c c' : Config} {env env' : Environment} {p : Parameter} {v : Yaml.Node} {standard : Nat}

/-- The value of a parameter in the scheduler section, which is a mapping. -/
def Entry (c : Config) (p : Parameter) (v : Yaml.Node) : Prop :=
  ∃ part : Yaml.Node, c.document.Holds "scheduler" part ∧ part.Holds p.key v

/-- There is no such section, or it is no mapping, or it lacks the key. -/
def Missing (c : Config) (p : Parameter) : Prop := ∀ v, ¬ c.Entry p v

theorem value?_eq_some_iff : c.value? p = some v ↔ c.Entry p v := by
  simp only [value?, Option.bind_eq_some_iff, Yaml.Node.field?_eq_some_iff, Entry]

theorem value?_eq_none_iff : c.value? p = none ↔ c.Missing p := by
  simp only [Option.eq_none_iff_forall_ne_some, ne_eq, value?_eq_some_iff, Missing]

/-! ## What the parameters amount to -/

/-- A value that should be a number is an integer that is not negative. -/
inductive IsNumber (p : Parameter) : Yaml.Node → Except ConfigError Nat → Prop where
  | natural (n : Nat) : IsNumber p (.integer n) (.ok n)
  | negative {n : Int} (h : n < 0) : IsNumber p (.integer n) (.error (.outOfRange p))
  | other {v : Yaml.Node} (h : ∀ n, v ≠ .integer n) : IsNumber p v (.error (.unexpectedType p))

/-- The standard value counts only if there is no other. -/
inductive ReadsNumber (c : Config) (p : Parameter) (standard : Nat) :
    Except ConfigError Nat → Prop where
  | absent (missing : c.Missing p) : ReadsNumber c p standard (.ok standard)
  | present {v : Yaml.Node} {r} (entry : c.Entry p v) (number : IsNumber p v r) : ReadsNumber c p standard r

inductive ReadsInterval (c : Config) : Except ConfigError Nat → Prop where
  | positive {n} (number : c.ReadsNumber .timerInterval 500 (.ok n)) (h : 0 < n) :
      ReadsInterval c (.ok n)
  | zero (number : c.ReadsNumber .timerInterval 500 (.ok 0)) :
      ReadsInterval c (.error (.notPositive .timerInterval))
  | wrong {e} (number : c.ReadsNumber .timerInterval 500 (.error e)) : ReadsInterval c (.error e)

/-- The text that should name the policy. A variable that is set decides alone. -/
def PolicyText (c : Config) (env : Environment) (s : String) : Prop :=
  env.policy = some s ∨ env.policy = none ∧ c.Entry .schedulingPolicy (.string s)

inductive ReadsPolicy (c : Config) (env : Environment) : Except ConfigError Policy → Prop where
  | named {s} {q : Policy} (text : c.PolicyText env s) (spelt : q.Spells s) :
      ReadsPolicy c env (.ok q)
  | misnamed {s} (text : c.PolicyText env s) (misspelt : ∀ q : Policy, ¬ q.Spells s) :
      ReadsPolicy c env (.error (.unexpectedType .schedulingPolicy))
  | absent (unset : env.policy = none) (missing : c.Missing .schedulingPolicy) :
      ReadsPolicy c env (.ok .priority)
  | other {v : Yaml.Node} (unset : env.policy = none) (entry : c.Entry .schedulingPolicy v)
      (h : ∀ s, v ≠ .string s) : ReadsPolicy c env (.error (.unexpectedType .schedulingPolicy))

inductive ReadsSeed (c : Config) (env : Environment) : Except ConfigError (Option Nat) → Prop where
  | numeral {s n} (set : env.seed = some s) (h : Text.Numeral n s.toList) :
      ReadsSeed c env (.ok (some n))
  | noNumeral {s} (set : env.seed = some s) (h : ∀ n, ¬ Text.Numeral n s.toList) :
      ReadsSeed c env (.error (.unexpectedType .rngSeed))
  | absent (unset : env.seed = none) (missing : c.Missing .rngSeed) : ReadsSeed c env (.ok none)
  | present {v : Yaml.Node} {n} (unset : env.seed = none) (entry : c.Entry .rngSeed v)
      (number : IsNumber .rngSeed v (.ok n)) : ReadsSeed c env (.ok (some n))
  | wrong {v : Yaml.Node} {e} (unset : env.seed = none) (entry : c.Entry .rngSeed v)
      (number : IsNumber .rngSeed v (.error e)) : ReadsSeed c env (.error e)

/-- All parameters, or the error of the first one that is wrong. -/
inductive ReadsSettings (c : Config) (env : Environment) : Except ConfigError Settings → Prop where
  | all {policy seed interval ticks} (hp : c.ReadsPolicy env (.ok policy))
      (hs : c.ReadsSeed env (.ok seed)) (hi : c.ReadsInterval (.ok interval))
      (ht : c.ReadsNumber .ticksPerDispatch 10 (.ok ticks)) :
      ReadsSettings c env (.ok ⟨policy, seed, interval, ticks⟩)
  | policy {e} (h : c.ReadsPolicy env (.error e)) : ReadsSettings c env (.error e)
  | seed {policy e} (hp : c.ReadsPolicy env (.ok policy)) (h : c.ReadsSeed env (.error e)) :
      ReadsSettings c env (.error e)
  | interval {policy seed e} (hp : c.ReadsPolicy env (.ok policy))
      (hs : c.ReadsSeed env (.ok seed)) (h : c.ReadsInterval (.error e)) :
      ReadsSettings c env (.error e)
  | ticks {policy seed interval e} (hp : c.ReadsPolicy env (.ok policy))
      (hs : c.ReadsSeed env (.ok seed)) (hi : c.ReadsInterval (.ok interval))
      (h : c.ReadsNumber .ticksPerDispatch 10 (.error e)) : ReadsSettings c env (.error e)

/-! ## The readers do as described -/

theorem number_eq_iff {r : Except ConfigError Nat} : number p v = r ↔ IsNumber p v r := by
  constructor
  · rintro rfl
    cases v with
    | integer n =>
      rw [number]
      split
      · rename_i hn
        obtain ⟨m, rfl⟩ := Int.eq_ofNat_of_zero_le hn
        exact .natural m
      · rename_i hn
        exact .negative (Int.not_le.1 hn)
    | _ => exact .other fun n h => nomatch h
  · intro h
    cases h with
    | natural n => simp [number]
    | negative hn => rw [number, if_neg (Int.not_le.2 hn)]
    | other hv =>
      cases v with
      | integer n => exact absurd rfl (hv n)
      | _ => rfl

theorem numberOr_eq_iff {r : Except ConfigError Nat} :
    c.numberOr p standard = r ↔ c.ReadsNumber p standard r := by
  unfold numberOr
  constructor
  · rintro rfl
    split
    · rename_i hv
      exact .absent (value?_eq_none_iff.1 hv)
    · rename_i v hv
      exact .present (value?_eq_some_iff.1 hv) (number_eq_iff.1 rfl)
  · intro h
    cases h with
    | absent missing => rw [value?_eq_none_iff.2 missing]
    | present entry number =>
      rw [value?_eq_some_iff.2 entry]
      exact number_eq_iff.2 number

theorem timerInterval_eq_iff {r : Except ConfigError Nat} :
    c.timerInterval = r ↔ c.ReadsInterval r := by
  unfold timerInterval
  constructor
  · rintro rfl
    cases hn : c.numberOr .timerInterval standardTimerInterval with
    | error e => exact .wrong (numberOr_eq_iff.1 hn)
    | ok n =>
      dsimp only
      split
      · rename_i h0
        subst h0
        exact .zero (numberOr_eq_iff.1 hn)
      · rename_i h0
        exact .positive (numberOr_eq_iff.1 hn) (Nat.pos_of_ne_zero h0)
  · intro h
    have hread : ∀ {r}, c.ReadsNumber .timerInterval 500 r →
        c.numberOr .timerInterval standardTimerInterval = r := numberOr_eq_iff.2
    cases h with
    | positive number h =>
      rw [hread number]
      exact if_neg h.ne'
    | zero number =>
      rw [hread number]
      rfl
    | wrong number => rw [hread number]

theorem policy_of_named {s : String} {q : Policy} (h : c.PolicyText env s)
    (hs : Policy.named? s = some q) : c.policy env = .ok q := by
  rcases h with he | ⟨hunset, hv⟩
  · simp only [policy, he, hs]
  · simp only [policy, hunset, value?_eq_some_iff.2 hv, hs]

theorem policy_of_unnamed {s : String} (h : c.PolicyText env s) (hs : Policy.named? s = none) :
    c.policy env = .error (.unexpectedType .schedulingPolicy) := by
  rcases h with he | ⟨hunset, hv⟩
  · simp only [policy, he, hs]
  · simp only [policy, hunset, value?_eq_some_iff.2 hv, hs]

theorem readsPolicy_of_text {s : String} (h : c.PolicyText env s) :
    c.ReadsPolicy env (c.policy env) := by
  cases hs : Policy.named? s with
  | some q =>
    rw [policy_of_named h hs]
    exact .named h (Policy.named?_eq_some_iff.1 hs)
  | none =>
    rw [policy_of_unnamed h hs]
    exact .misnamed h (Policy.named?_eq_none_iff.1 hs)

theorem policy_eq_iff {r : Except ConfigError Policy} : c.policy env = r ↔ c.ReadsPolicy env r := by
  constructor
  · rintro rfl
    cases he : env.policy with
    | some s => exact readsPolicy_of_text (.inl he)
    | none =>
      cases hv : c.value? .schedulingPolicy with
      | none =>
        have hp : c.policy env = .ok .priority := by
          rw [policy, he, hv]
          rfl
        exact hp ▸ .absent he (value?_eq_none_iff.1 hv)
      | some v =>
        have hentry := value?_eq_some_iff.1 hv
        cases v with
        | string s => exact readsPolicy_of_text (.inr ⟨he, hentry⟩)
        | _ =>
          have hp : c.policy env = .error (.unexpectedType .schedulingPolicy) := by
            rw [policy, he, hv]
          exact hp ▸ .other he hentry fun s h => nomatch h
  · intro h
    cases h with
    | named text spelt => exact policy_of_named text (Policy.named?_eq_some_iff.2 spelt)
    | misnamed text misspelt => exact policy_of_unnamed text (Policy.named?_eq_none_iff.2 misspelt)
    | absent unset missing =>
      rw [policy, unset, value?_eq_none_iff.2 missing]
      rfl
    | @other v unset entry hv =>
      rw [policy, unset, value?_eq_some_iff.2 entry]
      cases v with
      | string s => exact absurd rfl (hv s)
      | _ => rfl

theorem seed_eq_iff {r : Except ConfigError (Option Nat)} : c.seed env = r ↔ c.ReadsSeed env r := by
  unfold seed
  constructor
  · rintro rfl
    cases he : env.seed with
    | some s =>
      dsimp only
      cases hn : Text.word64? s.toList with
      | some n => exact .numeral he (Text.word64?_eq_some_iff.1 hn)
      | none => exact .noNumeral he (Text.word64?_eq_none_iff.1 hn)
    | none =>
      dsimp only
      split
      · rename_i hv
        exact .absent he (value?_eq_none_iff.1 hv)
      · rename_i v hv
        have hentry := value?_eq_some_iff.1 hv
        cases hn : number .rngSeed v with
        | ok n => exact .present he hentry (number_eq_iff.1 hn)
        | error e => exact .wrong he hentry (number_eq_iff.1 hn)
  · intro h
    cases h with
    | numeral set h =>
      rw [set]
      dsimp only
      rw [Text.word64?_eq_some_iff.2 h]
    | noNumeral set h =>
      rw [set]
      dsimp only
      rw [Text.word64?_eq_none_iff.2 h]
    | absent unset missing => rw [unset, value?_eq_none_iff.2 missing]
    | present unset entry number | wrong unset entry number =>
      rw [unset, value?_eq_some_iff.2 entry]
      dsimp only
      rw [number_eq_iff.2 number]
      rfl

theorem settings_eq_iff {r : Except ConfigError Settings} :
    c.settings env = r ↔ c.ReadsSettings env r := by
  constructor
  · rintro rfl
    unfold settings
    cases hp : c.policy env with
    | error e => exact .policy (policy_eq_iff.1 hp)
    | ok policy =>
      have hp := policy_eq_iff.1 hp
      cases hs : c.seed env with
      | error e => exact .seed hp (seed_eq_iff.1 hs)
      | ok seed =>
        have hs := seed_eq_iff.1 hs
        cases hi : c.timerInterval with
        | error e => exact .interval hp hs (timerInterval_eq_iff.1 hi)
        | ok interval =>
          have hi := timerInterval_eq_iff.1 hi
          cases ht : c.ticksPerDispatch with
          | error e => exact .ticks hp hs hi (numberOr_eq_iff.1 ht)
          | ok ticks => exact .all hp hs hi (numberOr_eq_iff.1 ht)
  · have hticks : ∀ {r}, c.ReadsNumber .ticksPerDispatch 10 r → c.ticksPerDispatch = r :=
      numberOr_eq_iff.2
    intro h
    unfold settings
    cases h with
    | all hp hs hi ht =>
      rw [policy_eq_iff.2 hp, seed_eq_iff.2 hs, timerInterval_eq_iff.2 hi, hticks ht]
    | policy h => rw [policy_eq_iff.2 h]
    | seed hp h => rw [policy_eq_iff.2 hp, seed_eq_iff.2 h]
    | interval hp hs h => rw [policy_eq_iff.2 hp, seed_eq_iff.2 hs, timerInterval_eq_iff.2 h]
    | ticks hp hs hi h =>
      rw [policy_eq_iff.2 hp, seed_eq_iff.2 hs, timerInterval_eq_iff.2 hi, hticks h]

/-! ## Errors -/

theorem IsNumber.reports {p : Parameter} {v : Yaml.Node} {e : ConfigError}
    (h : IsNumber p v (.error e)) : e.Reports e.toFail := by
  cases h with
  | negative => exact ConfigError.reports_toFail rfl
  | other => exact ConfigError.reports_toFail rfl

theorem ReadsNumber.reports {e : ConfigError} (h : c.ReadsNumber p standard (.error e)) :
    e.Reports e.toFail := by
  cases h with
  | present _ number => exact number.reports

theorem ReadsSettings.reports {e : ConfigError} (h : c.ReadsSettings env (.error e)) :
    e.Reports e.toFail := by
  cases h with
  | policy h =>
    cases h with
    | misnamed => exact ConfigError.reports_toFail rfl
    | other => exact ConfigError.reports_toFail rfl
  | seed _ h =>
    cases h with
    | noNumeral => exact ConfigError.reports_toFail rfl
    | wrong _ _ number => exact number.reports
  | interval _ _ h =>
    cases h with
    | zero => exact ConfigError.reports_toFail rfl
    | wrong number => exact number.reports
  | ticks _ _ _ h => exact h.reports

theorem ReadsInterval.pos {n : Nat} (h : c.ReadsInterval (.ok n)) : 0 < n := by
  cases h with
  | positive _ hn => exact hn

end Config

/-! ## A kernel as configured -/

namespace Kernel

variable {κ : Type} {gen : Generator}

/-- The kernel has the settings, and draws as the generator does from its seed on. -/
structure StartedWith (gen : Generator) (s : Settings) (k : Kernel κ) : Prop where
  policy : k.table.policy = s.policy
  interval : k.clock.interval = s.timerInterval
  ticks : k.ticksPerDispatch = s.ticksPerDispatch
  random : k.table.random = gen.start s.seed

theorem exists_start {s : Settings} (h : 0 < s.timerInterval) :
    ∃ k : Kernel κ, start gen s = .ok k ∧ StartedWith gen s k := by
  unfold start Clock.start
  rw [dif_pos h]
  exact ⟨_, rfl, rfl, rfl, rfl, rfl⟩

/-- What it means for a kernel to be started from a configuration. -/
structure Boots (gen : Generator) (c : Config) (env : Environment)
    (booted : Except Fault (Except Fail (Kernel κ))) : Prop where
  /-- The description leaves no choice. -/
  unique : ∃! r, c.ReadsSettings env r
  started : ∀ s, c.ReadsSettings env (.ok s) →
    ∃ k, booted = .ok (.ok k) ∧ StartedWith gen s k
  refused : ∀ e, c.ReadsSettings env (.error e) →
    booted = .ok (.error e.toFail) ∧ e.Reports e.toFail

theorem configured_boots (gen : Generator) (c : Config) (env : Environment) :
    Boots gen c env (configured gen c env : Except Fault (Except Fail (Kernel κ))) where
  unique := ⟨_, Config.settings_eq_iff.1 rfl, fun _ h => (Config.settings_eq_iff.2 h).symm⟩
  started s h := by
    have hpos : 0 < s.timerInterval := by
      cases h with
      | all _ _ hi _ => exact hi.pos
    obtain ⟨k, hk, hwith⟩ := exists_start hpos
    refine ⟨k, ?_, hwith⟩
    rw [configured, Config.settings_eq_iff.2 h]
    dsimp only
    rw [hk]
  refused e h := by
    refine ⟨?_, h.reports⟩
    rw [configured, Config.settings_eq_iff.2 h]

/-- A kernel is started, or refused with a failure, as the description says, and nothing but the
entries of the section and two variables matters. -/
theorem configured_spec (gen : Generator) (c : Config) (value? : String → Option String) :
    Boots gen c (.ofVariables value?)
      (configured gen c (.ofVariables value?) : Except Fault (Except Fail (Kernel κ))) ∧
    ∀ (c' : Config) (other? : String → Option String), (∀ p v, c'.Entry p v ↔ c.Entry p v) →
      other? "SCHEDULING_POLICY" = value? "SCHEDULING_POLICY" →
      other? "RNG_SEED" = value? "RNG_SEED" →
        (configured gen c' (.ofVariables other?) : Except Fault (Except Fail (Kernel κ))) =
          configured gen c (.ofVariables value?) := by
  refine ⟨configured_boots gen c _, fun c' other? hentry hpolicy hseed => ?_⟩
  have henv : Environment.ofVariables other? = .ofVariables value? := by
    have hp : Parameter.schedulingPolicy.variableName = "SCHEDULING_POLICY" := by decide +kernel
    have hs : Parameter.rngSeed.variableName = "RNG_SEED" := by decide +kernel
    rw [Environment.ofVariables, Environment.ofVariables, hp, hs, hpolicy, hseed]
  have hvalue : ∀ p, c'.value? p = c.value? p := by
    intro p
    ext v
    rw [Config.value?_eq_some_iff, Config.value?_eq_some_iff, hentry]
  have hsettings : ∀ env, c'.settings env = c.settings env := by
    intro env
    simp only [Config.settings, Config.policy, Config.seed, Config.timerInterval,
      Config.ticksPerDispatch, Config.numberOr, hvalue]
  rw [configured, configured, henv, hsettings]

/-- A scheduler section with the interval, behind whatever else the document has. -/
def sectioned (interval : Int) (others : List (Yaml.Node × Yaml.Node)) : Config :=
  ⟨.mapping (others ++ [(.string "scheduler", .mapping [
    (.string "scheduling_policy", .string " Lottery\n"), (.string "rng_seed", .null),
    (.string "timer_interval", .integer interval)])])⟩

/-- The seed comes from the variable, so that of the document may be wrong, and the ticks are the
standard ones. An interval of zero is out of range, and a word is no seed. -/
theorem configured_spec_sectioned : ∃ k : Kernel Unit,
    configured .counting (sectioned 100 [])
      (.ofVariables fun name => [("RNG_SEED", "+07")].lookup name) = .ok (.ok k) ∧
    StartedWith .counting ⟨.lottery, some 7, 100, 10⟩ k ∧
    configured .counting (sectioned 100 [(.integer 1, .sequence [])])
      (.ofVariables fun name => [("HOME", "/"), ("RNG_SEED", "+07")].lookup name) = .ok (.ok k) ∧
    configured (κ := Unit) .counting (sectioned 0 [])
      (.ofVariables fun name => [("RNG_SEED", "+07")].lookup name) =
        .ok (.error ⟨34, "parameter \"timer_interval\" must be positive"⟩) ∧
    configured (κ := Unit) .counting (sectioned 100 [])
      (.ofVariables fun name => [("RNG_SEED", "seven")].lookup name) =
        .ok (.error ⟨22, "parameter rng_seed has unexpected type"⟩) := by
  have hspec := configured_spec (κ := Unit) .counting (sectioned 100 [])
    fun name => [("RNG_SEED", "+07")].lookup name
  have hreads : (sectioned 100 []).ReadsSettings
      (.ofVariables fun name => [("RNG_SEED", "+07")].lookup name)
      (.ok ⟨.lottery, some 7, 100, 10⟩) := Config.settings_eq_iff.1 (by decide +kernel)
  have hzero : (sectioned 0 []).ReadsSettings
      (.ofVariables fun name => [("RNG_SEED", "+07")].lookup name)
      (.error (.notPositive .timerInterval)) := Config.settings_eq_iff.1 (by decide +kernel)
  have hword : (sectioned 100 []).ReadsSettings
      (.ofVariables fun name => [("RNG_SEED", "seven")].lookup name)
      (.error (.unexpectedType .rngSeed)) := Config.settings_eq_iff.1 (by decide +kernel)
  obtain ⟨k, hk, hwith⟩ := hspec.1.started _ hreads
  refine ⟨k, hk, hwith, (hspec.2 _ _ (fun p v => ?_) rfl rfl).trans hk, ?_, ?_⟩
  · rw [← Config.value?_eq_some_iff, ← Config.value?_eq_some_iff]
    cases p <;> exact Iff.rfl
  · have hfail : (ConfigError.notPositive .timerInterval).toFail =
        ⟨34, "parameter \"timer_interval\" must be positive"⟩ := by decide +kernel
    rw [((configured_spec .counting _ _).1.refused _ hzero).1, hfail]
  · have hfail : (ConfigError.unexpectedType .rngSeed).toFail =
        ⟨22, "parameter rng_seed has unexpected type"⟩ := by decide +kernel
    rw [((configured_spec .counting _ _).1.refused _ hword).1, hfail]

end Kernel
end ThreadKernel
