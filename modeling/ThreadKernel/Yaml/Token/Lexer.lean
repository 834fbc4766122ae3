import ThreadKernel.Yaml.Token.Basic
import ThreadKernel.Yaml.Token.Block
import ThreadKernel.Yaml.Token.Flow

/-!
# ThreadKernel.Yaml.Token.Lexer

From text to tokens. A key of a mapping is known as a key only when the colon behind it is read, so
the lexer remembers where a simple key may have begun, and puts the tokens of the key there later.
Anchors, aliases and tags are refused.

* `Lexer`   — the position, the tokens so far, the indentation, and the possible keys.
* `Lexer.next` — reads one token.
* `tokens?` — the tokens of a whole text, `none` if it is malformed.
-/

namespace ThreadKernel.Yaml

/-- A place where a simple key may have begun. -/
structure PossibleKey where
  /-- How many tokens stand before it. -/
  tokens : Nat
  index : Nat
  line : Nat
  column : Nat
  /-- A key that nothing else could stand for. -/
  required : Bool

structure Lexer where
  cursor : Cursor
  tokens : Array Token
  /-- The columns of the open blocks, the innermost first. -/
  indents : List Nat
  /-- The possible key outside of all brackets, and inside each pair, the innermost first. -/
  keys : List (Option PossibleKey)
  /-- Whether a simple key may begin here. -/
  keyAllowed : Bool
  /-- The index behind the last quoted scalar. -/
  quotedEnd : Nat

namespace Lexer

def ofString (s : String) : Lexer := ⟨.ofString s, #[], [], [none], true, 0⟩

/-- How many brackets are open. -/
def flowLevel (x : Lexer) : Nat := x.keys.length - 1

def inFlow (x : Lexer) : Bool := x.flowLevel != 0

def column (x : Lexer) : Nat := x.cursor.column

def push (t : Token) (x : Lexer) : Lexer := { x with tokens := x.tokens.push t }

def insertAt (i : Nat) (t : Token) (x : Lexer) : Lexer :=
  { x with tokens := x.tokens.insertIdxIfInBounds i t }

def allowKey (b : Bool) (x : Lexer) : Lexer := { x with keyAllowed := b }

def skip (n : Nat) (x : Lexer) : Lexer := { x with cursor := x.cursor.skipMany n }

/-! ## Indentation -/

/-- Whether `column` is deeper than the innermost block. -/
def isDeeper (column : Nat) (x : Lexer) : Bool :=
  match x.indents with
  | [] => true
  | indent :: _ => indent < column

/-- Opens a block at a column deeper than the innermost one, with its token before token `i`. -/
def openBlock (column i : Nat) (t : Token) (x : Lexer) : Lexer :=
  if x.inFlow || !x.isDeeper column then x
  else { x.insertAt i t with indents := column :: x.indents }

/-- Closes blocks from the innermost one, as long as `p` holds of their column. -/
def closeBlocks (p : Nat → Bool) (x : Lexer) : Lexer :=
  if x.inFlow then x
  else
    (x.indents.takeWhile p).foldl (fun x _ => x.push .blockEnd)
      { x with indents := x.indents.dropWhile p }

/-! ## Simple keys -/

/-- The possible key inside the innermost brackets. -/
def key? (x : Lexer) : Option PossibleKey := x.keys.head?.join

def setKey (k : Option PossibleKey) (x : Lexer) : Lexer := { x with keys := k :: x.keys.tail }

/-- Gives the possible key up. A required one cannot be given up. -/
def dropKey (x : Lexer) : Option Lexer :=
  if x.key?.any PossibleKey.required then none else some (x.setKey none)

/-- Remembers this place if a simple key may begin here. -/
def saveKey (x : Lexer) : Option Lexer :=
  if !x.keyAllowed then some x
  else
    let required := x.inFlow && x.indents.head? == some x.column
    let k : PossibleKey :=
      ⟨x.tokens.size, x.cursor.index, x.cursor.line, x.column, required⟩
    x.dropKey.map (setKey (some k))

/-- A simple key is one line of at most this many characters. -/
def maxKeyLength : Nat := 1024

def isStale (c : Cursor) (k : PossibleKey) : Bool :=
  k.line < c.line || k.index + maxKeyLength < c.index

/-- Gives up the keys that have become too long. -/
def dropStaleKeys (x : Lexer) : Option Lexer :=
  if x.keys.any (fun k => k.any (fun k => k.required && isStale x.cursor k)) then none
  else some { x with keys := x.keys.map (fun k => k.filter (fun k => !isStale x.cursor k)) }

/-! ## Space -/

/-- Over spaces, comments and line breaks. A tab counts as space only where no key may begin. -/
def skipSpaceWithin : Nat → Lexer → Lexer
  | 0, x => x
  | fuel + 1, x =>
    match x.cursor.peek with
    | none => x
    | some ' ' => skipSpaceWithin fuel (x.skip 1)
    | some '\t' => if x.inFlow || !x.keyAllowed then skipSpaceWithin fuel (x.skip 1) else x
    | some '#' => skipSpaceWithin fuel { x with cursor := x.cursor.skipLine }
    | some c =>
      if isBreak c then
        skipSpaceWithin fuel { x with
          cursor := x.cursor.skipBreak
          keyAllowed := x.keyAllowed || !x.inFlow }
      else x

def skipSpace (x : Lexer) : Lexer := skipSpaceWithin x.cursor.rest.length x

/-! ## Tokens -/

/-- The end of the text starts a new line and closes all blocks. -/
def finish (x : Lexer) : Option Lexer := (x.closeBlocks (fun _ => true)).dropKey

/-- A mark of the beginning or the end of a document. -/
def readMarker (t : Token) (x : Lexer) : Option Lexer :=
  (x.closeBlocks (fun _ => true)).dropKey.map fun x => ((x.allowKey false).skip 3).push t

/-- The version behind a version directive: two numbers of at most nine digits. -/
def skipVersion? (c : Cursor) : Option Cursor :=
  let number? (c : Cursor) : Option Cursor :=
    let n := (c.rest.takeWhile Text.isDecimal).length
    if n = 0 ∨ 9 < n then none else some (c.skipMany n)
  match number? (c.skipWhile isSpace) with
  | none => none
  | some c => if c.peek = some '.' then number? c.skip else none

def isNameChar (c : Char) : Bool := c.isAlphanum || c == '_' || c == '-'

/-- A directive. Only the form of the version directive is checked; others are skipped. -/
def readDirective (x : Lexer) : Option Lexer :=
  match (x.closeBlocks (fun _ => true)).dropKey with
  | none => none
  | some x =>
    let c := x.cursor.skip
    let name := c.rest.takeWhile isNameChar
    let c := c.skipMany name.length
    if name.isEmpty || !endsWord c.peek then none
    else
      let behind := if name = "YAML".toList then skipVersion? c else some c.skipLine
      match behind.bind Cursor.skipTrailer? with
      | none => none
      | some c => some ({ x with cursor := c.skipBreak, keyAllowed := false }.push .directive)

/-- The greatest depth of brackets. -/
def maxFlowLevel : Nat := 255

def openFlow (t : Token) (x : Lexer) : Option Lexer :=
  match x.saveKey with
  | none => none
  | some x =>
    if x.flowLevel = maxFlowLevel then none
    else some (({ x with keys := none :: x.keys, keyAllowed := true }.skip 1).push t)

def closeFlow (t : Token) (x : Lexer) : Option Lexer :=
  x.dropKey.map fun x =>
    let x := if x.inFlow then { x with keys := x.keys.tail } else x
    ((x.allowKey false).skip 1).push t

def readFlowEntry (x : Lexer) : Option Lexer :=
  x.dropKey.map fun x => ((x.allowKey true).skip 1).push .flowEntry

/-- A hyphen opens a sequence unless one is open at its column. -/
def readBlockEntry (x : Lexer) : Option Lexer :=
  if x.inFlow || !x.keyAllowed then none
  else
    (x.openBlock x.column x.tokens.size .blockSequenceStart).dropKey.map fun x =>
      ((x.allowKey true).skip 1).push .blockEntry

/-- A question mark announces a key of any form. -/
def readKey (x : Lexer) : Option Lexer :=
  if !x.inFlow && !x.keyAllowed then none
  else
    (x.openBlock x.column x.tokens.size .blockMappingStart).dropKey.map fun x =>
      ((x.allowKey (!x.inFlow)).skip 1).push .key

/-- A colon makes the possible key a key, and opens a mapping unless one is open at its column. -/
def readValue (x : Lexer) : Option Lexer :=
  match x.key? with
  | some k =>
    let x := (x.insertAt k.tokens .key).openBlock k.column k.tokens .blockMappingStart
    some ((((x.setKey none).allowKey false).skip 1).push .value)
  | none =>
    if !x.inFlow && !x.keyAllowed then none
    else
      let x := x.openBlock x.column x.tokens.size .blockMappingStart
      some (((x.allowKey (!x.inFlow)).skip 1).push .value)

def pushScalar (plain : Bool) (text : List Char) (c : Cursor) (x : Lexer) : Lexer :=
  { x with cursor := c }.push (.scalar plain (String.ofList text))

def readPlain (x : Lexer) : Option Lexer :=
  match x.saveKey with
  | none => none
  | some x =>
    let indent := match x.indents with
      | [] => 0
      | n :: _ => n + 1
    match plainScalar? indent x.inFlow x.cursor with
    | none => none
    | some (text, atLineStart, c) => some ((x.pushScalar true text c).allowKey atLineStart)

def readQuoted (single : Bool) (x : Lexer) : Option Lexer :=
  match x.saveKey with
  | none => none
  | some x =>
    match quotedScalar? single x.cursor with
    | none => none
    | some (text, c) =>
      some { (x.pushScalar false text c).allowKey false with quotedEnd := c.index }

def readBlock (literal : Bool) (x : Lexer) : Option Lexer :=
  match x.saveKey with
  | none => none
  | some x =>
    match blockScalar? literal x.indents.head? x.cursor with
    | none => none
    | some (text, c) => some ((x.pushScalar false text c).allowKey true)

/-- Whether a colon in front of `second` stands between a key and its value. -/
def isValueMark (second : Option Char) (x : Lexer) : Bool :=
  endsWord second ||
    (x.inFlow && (second.any isFlowIndicator || x.cursor.index == x.quotedEnd))

/-- The token that begins with the character `c` in front of `second`. -/
def readFrom (c : Char) (second : Option Char) (x : Lexer) : Option Lexer :=
  if x.column = 0 ∧ c = '%' then x.readDirective
  else if x.cursor.atMarker '-' then x.readMarker .documentStart
  else if x.cursor.atMarker '.' then x.readMarker .documentEnd
  else if c = '[' then x.openFlow .flowSequenceStart
  else if c = '\x7b' then x.openFlow .flowMappingStart
  else if c = ']' then x.closeFlow .flowSequenceEnd
  else if c = '\x7d' then x.closeFlow .flowMappingEnd
  else if c = ',' then x.readFlowEntry
  else if c = '-' ∧ endsWord second then x.readBlockEntry
  else if c = '?' ∧ endsWord second then x.readKey
  else if c = ':' ∧ x.isValueMark second then x.readValue
  else if c = '*' ∨ c = '&' ∨ c = '!' then none
  else if c = '|' ∧ !x.inFlow then x.readBlock true
  else if c = '>' ∧ !x.inFlow then x.readBlock false
  else if c = '\x27' then x.readQuoted true
  else if c = '\x22' then x.readQuoted false
  else if c = '%' ∨ c = '@' ∨ c = '\x60' then none
  else x.readPlain

/-- Reads one token, and says whether the text goes on. -/
def next (x : Lexer) : Option (Bool × Lexer) :=
  match x.skipSpace.dropStaleKeys with
  | none => none
  | some x =>
    let x := x.closeBlocks (fun column => x.column < column)
    match x.cursor.peek with
    | none => x.finish.map fun x => (false, x)
    | some c => (x.readFrom c x.cursor.peekSecond).map fun x => (true, x)

/-- Reads up to the end of the text. Every token takes a character. -/
def readAll : Nat → Lexer → Option Lexer
  | 0, x => some x
  | fuel + 1, x =>
    match x.next with
    | none => none
    | some (true, x) => readAll fuel x
    | some (false, x) => some x

end Lexer

def tokens? (s : String) : Option (List Token) :=
  let x := Lexer.ofString s
  (x.readAll (x.cursor.rest.length + 1)).map fun x => x.tokens.toList

end ThreadKernel.Yaml
