/-!
# ThreadKernel.Text.Numeral

Numerals as text: digits in a radix with an optional sign, within a range; and the notation of
floating-point numbers.

* `digits?`  — a number without sign; `signed?` — with at most one sign.
* `int64?`   — a signed numeral that fits 64 bits.
* `isFloat`  — digits with an optional point and exponent, or a name of infinity or of no number.
-/

namespace ThreadKernel.Text

/-- The value of a digit in a radix up to sixteen. -/
def digit? (radix : Nat) (c : Char) : Option Nat :=
  let n :=
    if '0' ≤ c ∧ c ≤ '9' then c.toNat - '0'.toNat
    else if 'a' ≤ c ∧ c ≤ 'f' then c.toNat - 'a'.toNat + 10
    else if 'A' ≤ c ∧ c ≤ 'F' then c.toNat - 'A'.toNat + 10
    else radix
  if n < radix then some n else none

/-- The number that the digits stand for behind the value `n`. -/
def digitsFrom? (radix : Nat) (n : Nat) : List Char → Option Nat
  | [] => some n
  | c :: rest =>
    match digit? radix c with
    | some d => digitsFrom? radix (n * radix + d) rest
    | none => none

/-- A numeral of at least one digit. -/
def digits? (radix : Nat) (s : List Char) : Option Nat :=
  match s with
  | [] => none
  | s => digitsFrom? radix 0 s

def signed? (radix : Nat) : List Char → Option Int
  | '-' :: s => (digits? radix s).map fun n => -(n : Int)
  | '+' :: s => (digits? radix s).map Int.ofNat
  | s => (digits? radix s).map Int.ofNat

def int64? (radix : Nat) (s : List Char) : Option Int :=
  (signed? radix s).filter fun n => -9223372036854775808 ≤ n ∧ n ≤ 9223372036854775807

/-- A numeral within 64 bits. A plus sign may precede it, a minus sign may not. -/
def word64? (s : List Char) : Option Nat :=
  let s :=
    match s with
    | '+' :: s => s
    | s => s
  (digits? 10 s).filter fun n => n ≤ 18446744073709551615

def dropSign : List Char → List Char
  | '+' :: s => s
  | '-' :: s => s
  | s => s

def isDecimal (c : Char) : Bool := '0' ≤ c && c ≤ '9'

/-- Nothing, or an exponent of at least one digit. -/
def isExponent : List Char → Bool
  | [] => true
  | c :: s =>
    let s := dropSign s
    (c == 'e' || c == 'E') && !s.isEmpty && s.all isDecimal

/-- Digits with a point before, among or behind them, and an exponent. -/
def isFloatNumeral (s : List Char) : Bool :=
  let whole := s.takeWhile isDecimal
  match s.dropWhile isDecimal with
  | '.' :: rest =>
    let fraction := rest.takeWhile isDecimal
    !(whole.isEmpty && fraction.isEmpty) && isExponent (rest.dropWhile isDecimal)
  | rest => !whole.isEmpty && isExponent rest

def isFloat (s : List Char) : Bool :=
  let s := dropSign s
  let word := String.ofList (s.map Char.toLower)
  word == "inf" || word == "infinity" || word == "nan" || isFloatNumeral s

end ThreadKernel.Text
