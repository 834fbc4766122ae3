import ThreadKernel.Text.Numeral
import ThreadKernel.Yaml.Cursor

/-!
# ThreadKernel.Yaml.Token.Flow

The text of plain and of quoted scalars. Words are kept, and the space between two words is folded:
one line break becomes a space, more of them become one less, and spaces around breaks go.

* `Gap`          — the space between two words.
* `plainScalar?` — a plain scalar. It ends at a comment, at a marker of another token, at the mark
  of a document, or where the next line is not indented enough.
* `quotedScalar?` — a scalar between quotes, with escapes if the quotes are double.
-/

namespace ThreadKernel.Yaml

structure Gap where
  /-- Spaces before the first line break. -/
  spaces : List Char
  /-- Whether the gap goes on at the beginning of a line. -/
  atLineStart : Bool
  /-- Whether a first line break was read. -/
  broken : Bool
  /-- Line breaks behind the first one. -/
  breaks : Nat

namespace Gap

/-- A gap before anything of it was read. -/
def start (atLineStart : Bool) : Gap := ⟨[], atLineStart, false, 0⟩

/-- What stands for the gap in the scalar. -/
def text (g : Gap) : List Char :=
  if !g.atLineStart then g.spaces
  else if g.broken && g.breaks == 0 then [' ']
  else List.replicate g.breaks '\n'

/-- Reads a gap. A tab that starts a line before column `indent` is refused. -/
def read (indent : Nat) : Nat → Gap → Cursor → Option (Gap × Cursor)
  | 0, g, c => some (g, c)
  | fuel + 1, g, c =>
    match c.peek with
    | none => some (g, c)
    | some x =>
      if isSpace x then
        if !g.atLineStart then read indent fuel { g with spaces := g.spaces ++ [x] } c.skip
        else if x == '\t' && c.column < indent then none
        else read indent fuel g c.skip
      else if isBreak x then
        if g.atLineStart then read indent fuel { g with breaks := g.breaks + 1 } c.skipBreak
        else read indent fuel ⟨[], true, true, 0⟩ c.skipBreak
      else some (g, c)

end Gap

/-! ## Plain scalars -/

/-- The characters of a plain word. A colon ends it before a space, and before a bracket or comma
inside brackets. -/
def plainWord (flow : Bool) : List Char → List Char
  | [] => []
  | x :: rest =>
    if isSpace x || isBreak x then []
    else if x == ':' && (endsWord rest.head? || (flow && rest.head?.any isFlowIndicator)) then []
    else if flow && isFlowIndicator x then []
    else x :: plainWord flow rest

/-- Reads words behind the text read so far, with the gap before them. Returns the text, whether
the scalar ended at the beginning of a line, and what follows. -/
def plainScalarFrom (indent : Nat) (flow : Bool) :
    Nat → List Char → Gap → Cursor → Option (List Char × Bool × Cursor)
  | 0, text, g, c => some (text, g.atLineStart, c)
  | fuel + 1, text, g, c =>
    if c.atDocumentMarker || c.peek = some '#' then some (text, g.atLineStart, c)
    else
      let word := plainWord flow c.rest
      let c := c.skipMany word.length
      let (text, g) := if word.isEmpty then (text, g) else (text ++ g.text ++ word, .start false)
      if c.peek.isNone || !endsWord c.peek then some (text, g.atLineStart, c)
      else
        match Gap.read indent c.rest.length (.start false) c with
        | none => none
        | some (g, c) =>
          if !flow && c.column < indent then some (text, g.atLineStart, c)
          else plainScalarFrom indent flow fuel text g c

def plainScalar? (indent : Nat) (flow : Bool) (c : Cursor) :
    Option (List Char × Bool × Cursor) :=
  plainScalarFrom indent flow (c.rest.length + 1) [] (.start false) c

/-! ## Quoted scalars -/

/-- What a backslash and the character behind it stand for: a character, or as many hexadecimal
digits of a code point. -/
def escaped? (x : Char) : Option (Char ⊕ Nat) :=
  if x = '0' then some (.inl (Char.ofNat 0))
  else if x = 'a' then some (.inl '\x07')
  else if x = 'b' then some (.inl '\x08')
  else if x = 't' ∨ x = '\t' then some (.inl '\t')
  else if x = 'n' then some (.inl '\n')
  else if x = 'v' then some (.inl '\x0b')
  else if x = 'f' then some (.inl '\x0c')
  else if x = 'r' then some (.inl '\r')
  else if x = 'e' then some (.inl '\x1b')
  else if x = ' ' ∨ x = '\x22' ∨ x = '\x27' ∨ x = '\\' then some (.inl x)
  else if x = 'N' then some (.inl (Char.ofNat 0x85))
  else if x = '_' then some (.inl (Char.ofNat 0xa0))
  else if x = 'L' then some (.inl (Char.ofNat 0x2028))
  else if x = 'P' then some (.inl (Char.ofNat 0x2029))
  else if x = 'x' then some (.inr 2)
  else if x = 'u' then some (.inr 4)
  else if x = 'U' then some (.inr 8)
  else none

/-- The character of a code point written in exactly `n` hexadecimal digits. -/
def codePoint? (n : Nat) (s : List Char) : Option Char :=
  let digits := s.take n
  if digits.length < n then none
  else
    match Text.digits? 16 digits with
    | none => none
    | some k => if k.isValidChar then some (Char.ofNat k) else none

/-- One character between quotes and what follows it: a doubled quote inside single quotes, an
escape inside double ones, any other as it stands. -/
def quotedChar? (single : Bool) (x : Char) (c : Cursor) : Option (Char × Cursor) :=
  if single then
    some (x, if x = '\x27' then c.skip.skip else c.skip)
  else if x = '\\' then
    match c.peekSecond.bind escaped? with
    | none => none
    | some (.inl y) => some (y, c.skip.skip)
    | some (.inr n) =>
      match codePoint? n c.skip.skip.rest with
      | none => none
      | some y => some (y, c.skip.skip.skipMany n)
  else some (x, c.skip)

/-- Reads the characters up to a space, a line break or the closing quote. Returns whether an
escaped line break ended them. -/
def quotedWord (single : Bool) : Nat → List Char → Cursor → Option (List Char × Bool × Cursor)
  | 0, text, c => some (text, false, c)
  | fuel + 1, text, c =>
    match c.peek with
    | none => some (text, false, c)
    | some x =>
      if isSpace x || isBreak x then some (text, false, c)
      else if single && x == '\x27' && c.peekSecond != some '\x27' then some (text, false, c)
      else if !single && x == '\x22' then some (text, false, c)
      else if !single && x == '\\' && c.peekSecond.any isBreak then
        some (text, true, c.skip.skipBreak)
      else
        match quotedChar? single x c with
        | none => none
        | some (y, c) => quotedWord single fuel (text ++ [y]) c

/-- Reads words and gaps up to the closing quote. -/
def quotedScalarFrom (single : Bool) : Nat → List Char → Cursor → Option (List Char × Cursor)
  | 0, _, _ => none
  | fuel + 1, text, c =>
    if c.atDocumentMarker || c.peek.isNone then none
    else
      match quotedWord single c.rest.length text c with
      | none => none
      | some (text, escapedBreak, c) =>
        if c.peek = some (if single then '\x27' else '\x22') then some (text, c.skip)
        else
          match Gap.read 0 c.rest.length (.start escapedBreak) c with
          | none => none
          | some (g, c) => quotedScalarFrom single fuel (text ++ g.text) c

/-- A scalar whose opening quote the cursor stands at. -/
def quotedScalar? (single : Bool) (c : Cursor) : Option (List Char × Cursor) :=
  quotedScalarFrom single (c.rest.length + 1) [] c.skip

end ThreadKernel.Yaml
