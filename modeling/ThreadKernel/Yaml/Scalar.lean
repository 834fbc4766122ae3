import ThreadKernel.Text.Numeral
import ThreadKernel.Yaml.Node

/-!
# ThreadKernel.Yaml.Scalar

The type of a plain scalar, read off its text. Quoted and block scalars are strings.

* `Node.ofPlain` — the first of these that fits: an integer in hexadecimal, octal or behind a plus
  sign, null, a boolean, a decimal integer, a real number, a string.
-/

namespace ThreadKernel.Yaml

/-- Spellings of infinity and of no number that only this format has. -/
def specialReals : List String :=
  [".inf", ".Inf", ".INF", "+.inf", "+.Inf", "+.INF", "-.inf", "-.Inf", "-.INF",
   ".nan", "NaN", ".NAN"]

/-- The integer spellings that carry a marker in front. -/
def markedInteger? : List Char → Option Int
  | '0' :: 'x' :: s => Text.int64? 16 s
  | '0' :: 'o' :: s => Text.int64? 8 s
  | '+' :: s => Text.int64? 10 s
  | _ => none

def Node.ofPlain (text : String) : Node :=
  match markedInteger? text.toList with
  | some n => .integer n
  | none =>
    if text = "~" ∨ text = "null" then .null
    else if text = "true" then .boolean true
    else if text = "false" then .boolean false
    else
      match Text.int64? 10 text.toList with
      | some n => .integer n
      | none =>
        if specialReals.contains text || Text.isFloat text.toList then .real text
        else .string text

end ThreadKernel.Yaml
