import MaharitDb.Core.Constraint
import MaharitDb.Core.Fulltext
import MaharitDb.Core.PropertyIndex
import MaharitDb.Query.Ast

/-!
# Values and bindings

The values a query computes and the variable bindings it works on
(`maharit-query/src/executor.rs`), and the state of an executor.
-/

namespace Maharit

/-- A value. -/
inductive Value where
  | null
  | bool (b : Bool)
  | int (n : Int64)
  | float (x : F64)
  | string (s : String)
  | node (id : NodeId)
  | nodeData (id : NodeId) (labels : List String) (properties : List (String × PropertyValue))
  | list (items : List Value)
  | path (nodes : List NodeId) (edges : List EdgeId)
  | date (days : Int32)
  | dateTime (ms : Int64)
  | duration (months days : Int32) (millis : Int64)
  | map (entries : List (String × Value))
  deriving Inhabited

namespace Value

/-- `From<&PropertyValue>`. -/
def ofProperty : PropertyValue → Value
  | .null => .null
  | .bool b => .bool b
  | .int n => .int n
  | .float x => .float x
  | .string s => .string s
  | .date days => .date days
  | .dateTime ms => .dateTime ms
  | .duration months days millis => .duration months days millis

/-- `From<Literal>`. -/
def ofLiteral : Literal → Value
  | .null => .null
  | .bool b => .bool b
  | .int n => .int n
  | .float x => .float x
  | .string s => .string s

/-- `matches!(v, Value::Bool(true))`. -/
def isTrue : Value → Bool
  | .bool true => true
  | _ => false

end Value

/-- `From<Literal>` for property values. -/
def PropertyValue.ofLiteral : Literal → PropertyValue
  | .null => .null
  | .bool b => .bool b
  | .int n => .int n
  | .float x => .float x
  | .string s => .string s

/-- What a variable is bound to. -/
inductive BindingValue where
  | node (id : NodeId)
  | edge (id : EdgeId)
  | path (nodes : List NodeId) (edges : List EdgeId)
  | scalar (value : Value)

namespace BindingValue

def asNode : BindingValue → Option NodeId
  | .node id => some id
  | _ => none

/-- How a computed value is bound again: nodes and paths as such. -/
def ofValue : Value → BindingValue
  | .node id => .node id
  | .nodeData id _ _ => .node id
  | .path nodes edges => .path nodes edges
  | value => .scalar value

end BindingValue

/-- The variables of a row. -/
abbrev Bindings := HashMap String BindingValue

/-- A row of a result. -/
abbrev Row := List Value

/-- A result. -/
structure ResultSet where
  columns : List String
  rows : List Row

/-- The errors of an execution. -/
inductive ExecuteError where
  | undefinedVariable (name : String)
  | typeError (message : String)
  | graphError (error : GraphError)
  | constraintError (error : ConstraintError)
  | fulltextError (error : FulltextError)
  deriving DecidableEq, Repr

/-- A numeric comparison of a property taken from `WHERE`. -/
structure RangeHint where
  var : String
  property : String
  op : BinaryOp
  value : PropertyValue

/-- The state of an executor on a graph of type `σ`. -/
structure Executor (σ : Type) where
  graph : σ
  constraints : ConstraintManager
  fulltext : FulltextManager
  propertyIndex : PropertyIndex
  /-- Set while the patterns of a segment are matched. -/
  rangeHints : List RangeHint
  params : HashMap String Value

end Maharit
