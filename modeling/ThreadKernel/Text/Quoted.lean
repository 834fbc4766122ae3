import ThreadKernel.Text.Escaped

/-!
# ThreadKernel.Text.Quoted

Text between double quotes, as messages show it. A quote and a backslash get a backslash; tab, line
feed, carriage return and the null character have a letter of their own; every other character that
would not show is written by its number.
-/

namespace ThreadKernel.Text

/-- One character between quotes. -/
def escape (c : Char) : String :=
  if c = '\x22' then "\\\""
  else if c = '\\' then "\\\\"
  else if c = '\n' then "\\n"
  else if c = '\t' then "\\t"
  else if c = '\r' then "\\r"
  else if c.toNat = 0 then "\\0"
  else if isEscaped c then "\\u\x7b" ++ String.ofList (Nat.toDigits 16 c.toNat) ++ "\x7d"
  else c.toString

def quoted (s : String) : String := "\"" ++ String.join (s.toList.map escape) ++ "\""

end ThreadKernel.Text
