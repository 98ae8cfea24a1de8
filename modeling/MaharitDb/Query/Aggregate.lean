import MaharitDb.Query.MatchStatement
import MaharitDb.Query.ValueText

/-!
# Aggregation

`build_aggregated_result_set` and `evaluate_aggregate` of `maharit-query/src/executor.rs`: the rows are
grouped by the texts of the items that are not aggregates, and every group gives one row.  Counting,
collecting, minimum and maximum are modelled here; the aggregates that compute with floats are the
parameter `NumberAggregates`.
-/

namespace Maharit

/-- The aggregates over numbers, given the values of the rows. -/
structure NumberAggregates where
  sum : List Value → Value
  avg : List Value → Value
  stDev : List Value → Value
  stDevP : List Value → Value
  /-- The percentile of at least one number. -/
  percentileCont : List Value → Value → Except ExecuteError Value
  percentileDisc : List Value → Value → Except ExecuteError Value

variable {σ : Type} [GraphBackend σ] (N : NumberAggregates) (txt : FloatText) (M : Semantics σ)
  (x : Executor σ)

/-! ## One aggregate -/

/-- The values of an item on the rows. -/
def aggregateValues (item : ReturnItem Expression) (bs : List Bindings) :
    Except ExecuteError (List Value) :=
  bs.mapM fun b => evaluateReturnItem M x b item

/-- The value of the item on the row is not null, and evaluating it does not fail. -/
def isNonNull (item : ReturnItem Expression) (b : Bindings) : Bool :=
  match evaluateReturnItem M x b item with
  | .ok .null => false
  | .ok _ => true
  | .error _ => false

/-- `is_always_bound`: the first row binds the variable to a node or an edge. -/
def isAlwaysBound (name : String) (bs : List Bindings) : Bool :=
  match bs.head?.bind (·.lookup name) with
  | some (.node _) | some (.edge _) => true
  | _ => false

/-- `count(item)`, with the shortcut for variables bound in the first row. -/
def countItem (item : ReturnItem Expression) (bs : List Bindings) : ℕ :=
  match item with
  | .variable name => if isAlwaysBound name bs then bs.length else bs.countP (isNonNull M x item)
  | item => bs.countP (isNonNull M x item)

/-- The values that are not null. -/
def nonNull (values : List Value) : List Value := values.filter fun v => !(v matches .null)

/-- `min` and `max`: a value replaces the one held when the comparison says so. -/
def extremum (pred : Ordering → Bool) (values : List Value) : Value :=
  ((nonNull values).foldl (fun held v =>
    match held with
    | none => some v
    | some current =>
        match compareValues v current pred with
        | .ok (.bool true) => some v
        | _ => some current) none).getD .null

/-- The first of the values with the same text. -/
def distinctValues (values : List Value) : List Value := distinctBy (Value.toDisplay txt) [] values

/-- `Int` and `Float`. -/
def Value.isNumber : Value → Bool
  | .int _ | .float _ => true
  | _ => false

/-- A percentile; null when no row has a number. -/
def percentile (compute : List Value → Value → Except ExecuteError Value)
    (item position : ReturnItem Expression) (bs : List Bindings) : Except ExecuteError Value := do
  let values ← aggregateValues M x item bs
  if values.any Value.isNumber then
    compute values (← evaluateReturnItem M x (bs.head?.getD ∅) position)
  else return .null

/-- An aggregate function on the rows. -/
def evaluateAggregateFunction (bs : List Bindings) :
    AggregateFunction Expression → Except ExecuteError Value
  | .count none => .ok (.int (Int64.ofNat bs.length))
  | .count (some item) => .ok (.int (Int64.ofNat (countItem M x item bs)))
  | .sum item => return N.sum (← aggregateValues M x item bs)
  | .avg item => return N.avg (← aggregateValues M x item bs)
  | .min item => return extremum (·.isLT) (← aggregateValues M x item bs)
  | .max item => return extremum (·.isGT) (← aggregateValues M x item bs)
  | .collect item =>
      .ok (.list (bs.filterMap fun b =>
        (evaluateReturnItem M x b item).toOption.filter fun v => !(v matches .null)))
  | .percentileCont item position => percentile M x N.percentileCont item position bs
  | .percentileDisc item position => percentile M x N.percentileDisc item position bs
  | .stDev item => return N.stDev (← aggregateValues M x item bs)
  | .stDevP item => return N.stDevP (← aggregateValues M x item bs)
  | .countDistinct item =>
      return .int (Int64.ofNat (distinctValues txt (nonNull (← aggregateValues M x item bs))).length)
  | .sumDistinct item => return N.sum (distinctValues txt (← aggregateValues M x item bs))
  | .avgDistinct item => return N.avg (distinctValues txt (nonNull (← aggregateValues M x item bs)))
  | .collectDistinct item =>
      return .list (distinctValues txt (nonNull (← aggregateValues M x item bs)))

/-- `evaluate_aggregate`. -/
def evaluateAggregate (bs : List Bindings) : ReturnItem Expression → Except ExecuteError Value
  | .aggregate function => evaluateAggregateFunction N txt M x bs function
  | .alias item _ => evaluateAggregate bs item
  | item =>
      match bs.head? with
      | some b => evaluateReturnItem M x b item
      | none => .ok .null

/-! ## Groups -/

/-- The texts a row is grouped by; an item that fails has the empty text. -/
def groupKey (r : ReturnClause) (b : Bindings) : List String :=
  (r.items.filter fun item => !isAggregate item).map fun item =>
    match evaluateReturnItem M x b item with
    | .ok v => v.toDisplay txt
    | .error _ => ""

/-- The rows of each group, the groups in the order in which they first appear. -/
def groupRows {α κ : Type} [BEq κ] (key : α → κ) (rows : List α) : List (List α) :=
  (rows.map key).eraseDups.map fun k => rows.filter fun a => key a == k

/-- The row of a group: the keys of its first row, and the aggregates. -/
def groupRow (r : ReturnClause) (bs : List Bindings) : Except ExecuteError Row := do
  let first := bs.head?.getD ∅
  -- The keys are evaluated before the aggregates.
  let _ ← (r.items.filter fun item => !isAggregate item).mapM (evaluateReturnItem M x first)
  r.items.mapM fun item =>
    if isAggregate item then evaluateAggregate N txt M x bs item
    else evaluateReturnItem M x first item

/-- `build_aggregated_result_set`. -/
def buildAggregatedResultSet (r : ReturnClause) (bs : List Bindings) :
    Except ExecuteError ResultSet := do
  let columns := r.items.map (returnItemToColumnName M)
  if r.items.all isAggregate then
    -- One row, whatever ORDER BY, SKIP and LIMIT say.
    return { columns := columns, rows := [← r.items.mapM (evaluateAggregate N txt M x bs)] }
  else
    let rows ← (groupRows (groupKey txt M x r) bs).mapM (groupRow N txt M x r)
    let skip ← resolveOption M x r.skip
    let limit ← resolveOption M x r.limit
    let keys ← match r.orderBy with
      | some orderBy => rows.mapM fun row => orderKeys M x orderBy columns row none
      | none => pure (rows.map fun _ => [])
    return { columns := columns, rows := slice skip limit (sortRows M r skip limit (keys.zip rows)) }

/-- The semantics with this aggregation. -/
def Semantics.withAggregates : Semantics σ :=
  { M with aggregated := buildAggregatedResultSet N txt M }

end Maharit
