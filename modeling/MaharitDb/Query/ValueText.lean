import MaharitDb.Query.Value

/-!
# Texts of values

`Display` of `Value` (`maharit-query/src/executor.rs`).  The text of a string is not escaped, also inside
a list.
-/

namespace Maharit

/-- `{:?}` of a vector of identifiers. -/
def debugIds (ids : List UInt64) : String :=
  "[" ++ ", ".intercalate (ids.map fun id => toString id.toNat) ++ "]"

namespace Value

variable (txt : FloatText)

mutual

/-- `Display`; a map is written in the order in which its entries come. -/
def toDisplay : Value → String
  | .null => "null"
  | .bool b => toString b
  | .int n => toString n.toInt
  | .float x => x.toDisplay txt
  | .string s => "\"" ++ s ++ "\""
  | .node id => "Node(" ++ toString id.toNat ++ ")"
  | .nodeData id labels _ => "(" ++ toString id.toNat ++ String.join (labels.map (":" ++ ·)) ++ ")"
  | .list items => "[" ++ ", ".intercalate (displayItems items) ++ "]"
  | .path nodes edges => "Path(nodes: " ++ debugIds nodes ++ ", edges: " ++ debugIds edges ++ ")"
  | .date days => Temporal.dateToString days
  | .dateTime ms => Temporal.dateTimeToString ms
  | .duration months days millis => Temporal.durationToString months days millis
  | .map entries => "\x7b" ++ ", ".intercalate (displayEntries entries) ++ "\x7d"

/-- The texts of the items of a list. -/
def displayItems : List Value → List String
  | [] => []
  | v :: vs => v.toDisplay :: displayItems vs

/-- The texts of the entries of a map. -/
def displayEntries : List (String × Value) → List String
  | [] => []
  | (k, v) :: es => (k ++ ": " ++ v.toDisplay) :: displayEntries es

end

end Value

end Maharit
