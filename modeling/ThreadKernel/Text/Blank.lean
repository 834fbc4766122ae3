/-!
# ThreadKernel.Text.Blank

The white space of the Unicode standard, and a text without it at both ends.

* `isBlank`  — the twenty-five characters with the property.
* `trim`     — the text from its first to its last character that is not blank.
-/

namespace ThreadKernel.Text

def isBlank (c : Char) : Bool :=
  let n := c.toNat
  (0x9 ≤ n && n ≤ 0xd) || n == 0x20 || n == 0x85 || n == 0xa0 || n == 0x1680 ||
    (0x2000 ≤ n && n ≤ 0x200a) || n == 0x2028 || n == 0x2029 || n == 0x202f || n == 0x205f ||
    n == 0x3000

def trim (s : List Char) : List Char :=
  ((s.dropWhile isBlank).reverse.dropWhile isBlank).reverse

/-- Letters of the English alphabet in lower case, all other characters as they are. -/
def lower (s : List Char) : List Char := s.map Char.toLower

end ThreadKernel.Text
