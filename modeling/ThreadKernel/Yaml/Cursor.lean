/-!
# ThreadKernel.Yaml.Cursor

A position in a text, with the text behind it.

* `Cursor.skip`      — one character on. A line feed starts a new line; a lone carriage return ends
  a line too, but the count of lines and columns goes on.
* `Cursor.skipBreak` — over one line break, which may be two characters.
* `Cursor.skipWhile` — over all characters of a class.
-/

namespace ThreadKernel.Yaml

structure Cursor where
  rest : List Char
  index : Nat
  line : Nat
  column : Nat

def isBreak (c : Char) : Bool := c == '\n' || c == '\r'

def isSpace (c : Char) : Bool := c == ' ' || c == '\t'

/-- The characters with a meaning of their own inside brackets. -/
def isFlowIndicator (c : Char) : Bool :=
  c == ',' || c == '[' || c == ']' || c == '\x7b' || c == '\x7d'

/-- A line break or the end of the text. -/
def endsLine : Option Char → Bool
  | none => true
  | some c => isBreak c

/-- A space, a line break or the end of the text. -/
def endsWord : Option Char → Bool
  | none => true
  | some c => isSpace c || isBreak c

namespace Cursor

/-- The null character ends a text. -/
def ofString (s : String) : Cursor := ⟨s.toList.takeWhile (fun c => c.toNat != 0), 0, 0, 0⟩

def peek (c : Cursor) : Option Char := c.rest.head?

def peekSecond (c : Cursor) : Option Char := c.rest[1]?

def skip (c : Cursor) : Cursor :=
  match c.rest with
  | [] => c
  | x :: rest =>
    if x = '\n' then ⟨rest, c.index + 1, c.line + 1, 0⟩
    else ⟨rest, c.index + 1, c.line, c.column + 1⟩

def skipMany (n : Nat) (c : Cursor) : Cursor := (c.rest.take n).foldl (fun c _ => c.skip) c

def skipWhile (p : Char → Bool) (c : Cursor) : Cursor :=
  (c.rest.takeWhile p).foldl (fun c _ => c.skip) c

def skipBreak (c : Cursor) : Cursor :=
  match c.rest with
  | '\r' :: '\n' :: _ => c.skip.skip
  | x :: _ => if isBreak x then c.skip else c
  | [] => c

/-- Up to the end of the line. -/
def skipLine (c : Cursor) : Cursor := c.skipWhile (fun x => !isBreak x)

/-- Over spaces and a comment; `none` if anything else stands before the end of the line. -/
def skipTrailer? (c : Cursor) : Option Cursor :=
  let c := c.skipWhile isSpace
  let c := if c.peek = some '#' then c.skipLine else c
  if endsLine c.peek then some c else none

/-- Whether three hyphens or three points stand at the beginning of a line, as a word. -/
def atMarker (x : Char) (c : Cursor) : Bool :=
  c.column == 0 && c.rest.take 3 == [x, x, x] && endsWord c.rest[3]?

def atDocumentMarker (c : Cursor) : Bool := c.atMarker '-' || c.atMarker '.'

end Cursor
end ThreadKernel.Yaml
