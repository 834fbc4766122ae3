/-!
# ThreadKernel.Yaml.Token.Basic

The tokens of a YAML text. Indentation shows as tokens that open and close blocks.
-/

namespace ThreadKernel.Yaml

inductive Token where
  | directive
  | documentStart
  | documentEnd
  | blockSequenceStart
  | blockMappingStart
  | blockEnd
  | blockEntry
  | flowSequenceStart
  | flowSequenceEnd
  | flowMappingStart
  | flowMappingEnd
  | flowEntry
  | key
  | value
  /-- Only the text of a plain scalar decides its type. -/
  | scalar (plain : Bool) (text : String)
deriving DecidableEq, Repr

end ThreadKernel.Yaml
