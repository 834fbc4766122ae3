import ThreadKernel.Yaml.Scalar
import ThreadKernel.Yaml.Token.Lexer

/-!
# ThreadKernel.Yaml.Document

From tokens to the values of documents. Where a value is left out it is null.

* `readNode`   — one value and the tokens behind it.
* `documents?` — the documents of a text, `none` if it is malformed.
-/

namespace ThreadKernel.Yaml

/-- A value read, and the tokens behind it. -/
abbrev Read := Option (Node × List Token)

/-- The entries of a mapping read so far, the newest first. -/
abbrev Entries := List (Node × Node)

mutual

/-- One value. Blocks are allowed where `block` holds, and a sequence without indentation of its
own where `indentless` holds. -/
def readNode (block indentless : Bool) : Nat → List Token → Read
  | 0, _ => none
  | fuel + 1, ts =>
    match ts with
    | .scalar plain text :: rest =>
      some (if plain then .ofPlain text else .string text, rest)
    | .flowSequenceStart :: rest => readFlowSequence true [] fuel rest
    | .flowMappingStart :: rest => readFlowMapping true [] fuel rest
    | .blockEntry :: _ => if indentless then readIndentless [] fuel ts else none
    | .blockSequenceStart :: rest => if block then readBlockSequence [] fuel rest else none
    | .blockMappingStart :: rest => if block then readBlockMapping [] fuel rest else none
    | _ => none

/-- Items up to the end of the block, the newest first in `items`. -/
def readBlockSequence (items : List Node) : Nat → List Token → Read
  | 0, _ => none
  | fuel + 1, ts =>
    match ts with
    | .blockEnd :: rest => some (.sequence items.reverse, rest)
    | .blockEntry :: rest =>
      match rest with
      | .blockEntry :: _ => readBlockSequence (.null :: items) fuel rest
      | .blockEnd :: _ => readBlockSequence (.null :: items) fuel rest
      | _ =>
        match readNode true false fuel rest with
        | none => none
        | some (v, rest) => readBlockSequence (v :: items) fuel rest
    | _ => none

/-- Items as long as hyphens follow. -/
def readIndentless (items : List Node) : Nat → List Token → Read
  | 0, _ => none
  | fuel + 1, ts =>
    match ts with
    | .blockEntry :: rest =>
      match rest with
      | .blockEntry :: _ => readIndentless (.null :: items) fuel rest
      | .key :: _ => readIndentless (.null :: items) fuel rest
      | .value :: _ => readIndentless (.null :: items) fuel rest
      | .blockEnd :: _ => readIndentless (.null :: items) fuel rest
      | _ =>
        match readNode true false fuel rest with
        | none => none
        | some (v, rest) => readIndentless (v :: items) fuel rest
    | _ => some (.sequence items.reverse, ts)

/-- A key or a value of a block mapping, null if the next token shows that it was left out. -/
def readBlockPart : Nat → List Token → Read
  | 0, _ => none
  | fuel + 1, ts =>
    match ts with
    | .key :: _ => some (.null, ts)
    | .value :: _ => some (.null, ts)
    | .blockEnd :: _ => some (.null, ts)
    | _ => readNode true true fuel ts

/-- The value behind a key of a block mapping. -/
def readBlockValue : Nat → List Token → Read
  | 0, _ => none
  | fuel + 1, ts =>
    match ts with
    | .value :: rest => readBlockPart fuel rest
    | _ => some (.null, ts)

/-- Entries up to the end of the block, the newest first in `entries`. -/
def readBlockMapping (entries : Entries) : Nat → List Token → Read
  | 0, _ => none
  | fuel + 1, ts =>
    let behindKey (k : Node) (rest : List Token) : Read :=
      match readBlockValue fuel rest with
      | none => none
      | some (v, rest) => readBlockMapping ((k, v) :: entries) fuel rest
    match ts with
    | .blockEnd :: rest => some (.mapping entries.reverse, rest)
    | .key :: rest =>
      match readBlockPart fuel rest with
      | none => none
      | some (k, rest) => behindKey k rest
    | .value :: _ => behindKey .null ts
    | _ => none

/-- A pair within a flow sequence, behind its key mark. -/
def readFlowPair : Nat → List Token → Read
  | 0, _ => none
  | fuel + 1, ts =>
    let key : Read :=
      match ts with
      | .value :: rest => some (.null, rest)
      | .flowEntry :: rest => some (.null, rest)
      | .flowSequenceEnd :: rest => some (.null, rest)
      | _ => readNode false false fuel ts
    match key with
    | none => none
    | some (k, rest) =>
      let value : Read :=
        match rest with
        | .value :: .flowEntry :: _ => some (.null, rest.tail)
        | .value :: .flowSequenceEnd :: _ => some (.null, rest.tail)
        | .value :: rest => readNode false false fuel rest
        | _ => some (.null, rest)
      match value with
      | none => none
      | some (v, rest) => some (.mapping [(k, v)], rest)

/-- Items up to the closing bracket, with commas between them. -/
def readFlowSequence (first : Bool) (items : List Node) : Nat → List Token → Read
  | 0, _ => none
  | fuel + 1, ts =>
    let item (ts : List Token) : Read :=
      match ts with
      | .flowSequenceEnd :: rest => some (.sequence items.reverse, rest)
      | .key :: rest =>
        match readFlowPair fuel rest with
        | none => none
        | some (v, rest) => readFlowSequence false (v :: items) fuel rest
      | _ =>
        match readNode false false fuel ts with
        | none => none
        | some (v, rest) => readFlowSequence false (v :: items) fuel rest
    match ts with
    | .flowSequenceEnd :: rest => some (.sequence items.reverse, rest)
    | .flowEntry :: rest => if first then item ts else item rest
    | _ => if first then item ts else none

/-- The value behind a key of a flow mapping. -/
def readFlowValue : Nat → List Token → Read
  | 0, _ => none
  | fuel + 1, ts =>
    match ts with
    | .value :: .flowEntry :: _ => some (.null, ts.tail)
    | .value :: .flowMappingEnd :: _ => some (.null, ts.tail)
    | .value :: rest => readNode false false fuel rest
    | _ => some (.null, ts)

/-- Entries up to the closing brace, with commas between them. -/
def readFlowMapping (first : Bool) (entries : Entries) : Nat → List Token → Read
  | 0, _ => none
  | fuel + 1, ts =>
    let behindKey (k : Node) (rest : List Token) : Read :=
      match readFlowValue fuel rest with
      | none => none
      | some (v, rest) => readFlowMapping false ((k, v) :: entries) fuel rest
    let entry (ts : List Token) : Read :=
      match ts with
      | .flowMappingEnd :: rest => some (.mapping entries.reverse, rest)
      | .key :: rest =>
        match rest with
        | .value :: _ => behindKey .null rest
        | .flowEntry :: _ => behindKey .null rest
        | .flowMappingEnd :: _ => behindKey .null rest
        | _ =>
          match readNode false false fuel rest with
          | none => none
          | some (k, rest) => behindKey k rest
      | .value :: _ => behindKey .null ts
      | _ =>
        match readNode false false fuel ts with
        | none => none
        | some (k, rest) => readFlowMapping false ((k, .null) :: entries) fuel rest
    match ts with
    | .flowMappingEnd :: rest => some (.mapping entries.reverse, rest)
    | .flowEntry :: rest => if first then entry ts else entry rest
    | _ => if first then entry ts else none

end

/-! ## Documents -/

def isDirective (t : Token) : Bool := t == .directive

def isDocumentEnd (t : Token) : Bool := t == .documentEnd

/-- The value of a document behind its mark, null if it has none. -/
def readContent (fuel : Nat) (ts : List Token) : Read :=
  match ts with
  | [] => some (.null, ts)
  | .directive :: _ => some (.null, ts)
  | .documentStart :: _ => some (.null, ts)
  | .documentEnd :: _ => some (.null, ts)
  | _ => readNode true false fuel ts

/-- The tokens behind a document, without the mark of its end. -/
def behindDocument (ts : List Token) : List Token :=
  match ts with
  | .documentEnd :: rest => rest
  | _ => ts

/-- A document behind its directives and its mark. -/
def readMarked (fuel : Nat) (ts : List Token) : Read :=
  match ts.dropWhile isDirective with
  | .documentStart :: rest => readContent fuel rest
  | _ => none

/-- The documents behind the first one. Each needs a mark. -/
def readDocuments : Nat → List Token → Option (List Node)
  | 0, _ => none
  | fuel + 1, ts =>
    match ts.dropWhile isDocumentEnd with
    | [] => some []
    | ts =>
      match readMarked fuel ts with
      | none => none
      | some (v, rest) => (readDocuments fuel (behindDocument rest)).map (v :: ·)

/-- All documents. The first one needs no mark. -/
def readStream (fuel : Nat) (ts : List Token) : Option (List Node) :=
  let first : Read :=
    match ts with
    | .directive :: _ => readMarked fuel ts
    | .documentStart :: _ => readMarked fuel ts
    | _ => readNode true false fuel ts
  match ts, first with
  | [], _ => some []
  | _, none => none
  | _, some (v, rest) => (readDocuments fuel (behindDocument rest)).map (v :: ·)

def documents? (s : String) : Option (List Node) :=
  match tokens? s with
  | none => none
  | some ts => readStream (4 * ts.length + 8) ts

end ThreadKernel.Yaml
