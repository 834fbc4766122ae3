import ThreadKernel.Text.Numeral
import ThreadKernel.Yaml.Cursor

/-!
# ThreadKernel.Yaml.Token.Block

Block scalars: indented lines behind a header. A literal scalar keeps its line breaks, a folded one
turns a single break between two unindented lines into a space. The header may fix the indentation,
and say whether breaks at the end are kept or cut.

* `Header`       — the header.
* `blockScalar?` — the text of the scalar.
-/

namespace ThreadKernel.Yaml

inductive Chomp where
  | keep
  | clip
  | strip
deriving DecidableEq

structure Header where
  chomp : Chomp
  /-- The indentation behind that of the parent; zero if it is to be found out. -/
  increment : Nat

namespace Header

def chomp? : Option Char → Option Chomp
  | some '+' => some .keep
  | some '-' => some .strip
  | _ => none

/-- A digit from one to nine, if one stands here. Zero is refused. -/
def readIncrement (c : Cursor) : Option (Nat × Cursor) :=
  match c.peek.bind (Text.digit? 10) with
  | none => some (0, c)
  | some 0 => none
  | some n => some (n, c.skip)

/-- The indicators in either order. -/
def read (c : Cursor) : Option (Header × Cursor) :=
  match chomp? c.peek with
  | some chomp => (readIncrement c.skip).map fun (n, c) => (⟨chomp, n⟩, c)
  | none =>
    match readIncrement c with
    | none => none
    | some (0, c) => some (⟨.clip, 0⟩, c)
    | some (n, c) =>
      match chomp? c.peek with
      | some chomp => some (⟨chomp, n⟩, c.skip)
      | none => some (⟨.clip, n⟩, c)

end Header

/-- Over empty lines and the indentation of the next line. Counts the line breaks and finds the
deepest indentation. A tab within the indentation is refused. -/
def blockBreaks (indent : Nat) : Nat → Nat → Nat → Cursor → Option (Nat × Nat × Cursor)
  | 0, deepest, breaks, c => some (deepest, breaks, c)
  | fuel + 1, deepest, breaks, c =>
    let spaces := (c.rest.takeWhile (· == ' ')).length
    let c := c.skipMany (if indent = 0 then spaces else min spaces (indent - c.column))
    let deepest := max deepest c.column
    if (indent = 0 ∨ c.column < indent) ∧ c.peek = some '\t' then none
    else if c.peek.any isBreak then blockBreaks indent fuel deepest (breaks + 1) c.skipBreak
    else some (deepest, breaks, c)

/-- The lines of a scalar, read line by line. -/
structure BlockLines where
  text : List Char
  /-- Whether a line break is pending behind the last line. -/
  broken : Bool
  /-- Empty lines behind that break. -/
  breaks : Nat
  /-- Whether the last line began with a space. -/
  indented : Bool

/-- The text with another line. -/
def BlockLines.add (literal : Bool) (line : List Char) (b : BlockLines) : BlockLines :=
  let indented := line.head?.any isSpace
  let folds := !literal && b.broken && !b.indented && !indented
  let joint :=
    if folds then (if b.breaks = 0 then [' '] else [])
    else if b.broken then ['\n'] else []
  { text := b.text ++ joint ++ List.replicate b.breaks '\n' ++ line
    broken := false
    breaks := 0
    indented := indented }

/-- Reads lines as long as they have the indentation of the scalar. -/
def blockLines (literal : Bool) (indent : Nat) :
    Nat → BlockLines → Cursor → Option (BlockLines × Cursor)
  | 0, b, c => some (b, c)
  | fuel + 1, b, c =>
    if c.column != indent || c.peek.isNone then some (b, c)
    else
      let line := c.rest.takeWhile (fun x => !isBreak x)
      let b := b.add literal line
      let c := c.skipMany line.length
      if c.peek.isNone then some (b, c)
      else
        match blockBreaks indent c.rest.length 0 0 c.skipBreak with
        | none => none
        | some (_, breaks, c) =>
          blockLines literal indent fuel { b with broken := true, breaks := breaks } c

/-- The text with the breaks at its end kept or cut. -/
def BlockLines.chomped (chomp : Chomp) (b : BlockLines) : List Char :=
  let last := if b.broken then ['\n'] else []
  match chomp with
  | .strip => b.text
  | .clip => b.text ++ last
  | .keep => b.text ++ last ++ List.replicate b.breaks '\n'

/-- A block scalar whose indicator the cursor stands at. `parent` is the indentation around it, and
absent at the top. -/
def blockScalar? (literal : Bool) (parent : Option Nat) (c : Cursor) :
    Option (List Char × Cursor) :=
  match Header.read c.skip with
  | none => none
  | some (h, c) =>
    match c.skipTrailer? with
    | none => none
    | some c =>
      let c := c.skipBreak
      let fixed := if h.increment = 0 then 0 else parent.getD 0 + h.increment
      match blockBreaks fixed (c.rest.length + 1) 0 0 c with
      | none => none
      | some (deepest, breaks, c) =>
        let least := match parent with
          | none => 1
          | some n => n + 1
        let indent := if fixed = 0 then max deepest least else fixed
        match blockLines literal indent (c.rest.length + 1) ⟨[], false, breaks, false⟩ c with
        | none => none
        | some (b, c) => some (b.chomped h.chomp, c)

end ThreadKernel.Yaml
