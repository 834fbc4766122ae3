/-!
# ThreadKernel.Yaml.Node

Values of YAML documents. A mapping keeps its entries in the order of the document; of entries with
equal keys the last one counts.

* `Node`        — the value.
* `Node.field?` — the value under a string key.
-/

namespace ThreadKernel.Yaml

inductive Node where
  | null
  | boolean (b : Bool)
  | integer (n : Int)
  /-- A number that is no 64-bit integer, as it was written. -/
  | real (text : String)
  | string (s : String)
  | sequence (items : List Node)
  | mapping (entries : List (Node × Node))
deriving Inhabited

namespace Node

def isString (name : String) : Node → Bool
  | string s => s == name
  | _ => false

/-- The last entry of a mapping with the string key `name`. -/
def lookup (name : String) : List (Node × Node) → Option Node
  | [] => none
  | (k, v) :: rest =>
    match lookup name rest with
    | some v => some v
    | none => if k.isString name then some v else none

/-- The value under a string key; `none` also for a value that is no mapping. -/
def field? (name : String) : Node → Option Node
  | mapping entries => lookup name entries
  | _ => none

end Node
end ThreadKernel.Yaml
