import MaharitDb.Query.Matching

/-!
# Projections and query segments

How the rows of a query are filtered, projected and handed on (`execute_query_segment`,
`apply_with_clause` and `build_result_set` of `maharit-query/src/executor.rs`).  `Semantics` collects
what these functions call and this model leaves open: the evaluator, the search for longer paths,
aggregation, and the texts of values and of column names.
-/

namespace Maharit

/-- The texts that rows and columns are compared by. -/
structure Texts where
  /-- `return_item_to_column_name` of an aggregate. -/
  aggregateColumn : AggregateFunction Expression → String
  /-- `aggregate_to_name`. -/
  aggregateName : AggregateFunction Expression → String
  /-- `return_item_to_column_name` of a function. -/
  functionColumn : ScalarFunction Expression → String
  /-- `function_to_name`. -/
  functionName : ScalarFunction Expression → String
  /-- `expression_to_display`. -/
  expression : Expression → String
  /-- `row_to_key`: the row as `{:?}` writes it, with bars between the values. -/
  rowKey : Row → String
  /-- `bindings_key`. -/
  bindingsKey : Bindings → String
  /-- The row as `{}` writes it. -/
  rowText : Row → String

/-- What the functions of this file call. -/
structure Semantics (σ : Type) where
  search : PathSearch σ
  /-- `evaluate_expression`. -/
  evaluate : Executor σ → Evaluator
  /-- `build_aggregated_result_set`. -/
  aggregated : Executor σ → ReturnClause → List Bindings → Except ExecuteError ResultSet
  /-- `access_temporal_field`. -/
  temporalField : Value → String → Except ExecuteError Value
  /-- `select_nth_unstable_by` and `truncate`; which of several equal rows are kept is open. -/
  smallest : (List Value × Row → List Value × Row → Ordering) → ℕ → List (List Value × Row) →
    List (List Value × Row)
  texts : Texts

variable {σ : Type} [GraphBackend σ] (M : Semantics σ) (x : Executor σ)

/-! ## Return items -/

/-- A node as it is returned. -/
def nodeValue (id : NodeId) : Value :=
  match GraphBackend.getNode x.graph id with
  | some n => .nodeData id n.labels (n.properties.entries.map fun e => (e.1, e.2))
  | none => .node id

/-- `ReturnItem::Variable`. -/
def returnVariable (b : Bindings) (name : String) : Value :=
  match b.lookup name with
  | some (.node id) => nodeValue x id
  | some value => value.toValue
  | none => .null

/-- `ReturnItem::Property`. -/
def returnProperty (b : Bindings) (name property : String) : Except ExecuteError Value :=
  match b.lookup name with
  | some (.node id) =>
      .ok (propertyOrNull ((GraphBackend.getNode x.graph id).bind (·.getProperty property)))
  | some (.edge id) =>
      .ok (propertyOrNull ((GraphBackend.getEdge x.graph id).bind (·.getProperty property)))
  | some (.scalar value) => M.temporalField value property
  | _ => .ok .null

/-- `ReturnItem::All`: the first bound node. -/
def returnAll (b : Bindings) : Value :=
  (b.entries.findSome? fun e =>
    match e.2 with
    | .node id => (GraphBackend.getNode x.graph id).map fun _ => nodeValue x id
    | _ => none).getD .null

/-- `evaluate_return_item`. -/
def evaluateReturnItem (b : Bindings) : ReturnItem Expression → Except ExecuteError Value
  | .variable name => .ok (returnVariable x b name)
  | .property name property => returnProperty M x b name property
  | .all => .ok (returnAll x b)
  | .alias item _ => evaluateReturnItem b item
  | .aggregate _ => .ok .null
  | .function function => M.evaluate x b (.scalarFn function)
  | .expr e => M.evaluate x b e

/-- `is_aggregate`. -/
def isAggregate : ReturnItem Expression → Bool
  | .aggregate _ => true
  | .alias item _ => isAggregate item
  | _ => false

/-- `return_item_to_column_name`. -/
def returnItemToColumnName : ReturnItem Expression → String
  | .alias _ name => name
  | .variable name => name
  | .property name property => name ++ "." ++ property
  | .all => "*"
  | .expr e => M.texts.expression e
  | .aggregate function => M.texts.aggregateColumn function
  | .function function => M.texts.functionColumn function

/-- The name of an item of `WITH` without `AS`. -/
def withItemName : ReturnItem Expression → String
  | .aggregate function => M.texts.aggregateName function
  | .function function => M.texts.functionName function
  | item => returnItemToColumnName M item

/-- The name of an item of `WITH`. -/
def WithItem.name (item : WithItem) : String := item.asName.getD (withItemName M item.expression)

/-! ## Order, duplicates and slices -/

/-- Keep the first of the elements with the same key. -/
def distinctBy {α : Type} (key : α → String) : List String → List α → List α
  | _, [] => []
  | seen, a :: l =>
      if key a ∈ seen then distinctBy key seen l else a :: distinctBy key (key a :: seen) l

/-- `order_keys`. -/
def orderKeys (orderBy : List OrderByItem) (columns : List String) (row : Row)
    (source : Option Bindings) : Except ExecuteError (List Value) :=
  orderBy.mapM fun item =>
    let name := returnItemToColumnName M item.expression
    match (columns.zip row).lookup name, source with
    | some value, _ => .ok value
    | none, some b => evaluateReturnItem M x b item.expression
    | none, none => .error (.typeError ("ORDER BY " ++ name ++
        ": with aggregation, ORDER BY can only refer to returned columns " ++
        "(add it to RETURN or use an alias)"))

/-- The order of two values that are not null. -/
def valueSortOrdering : Value → Value → Ordering
  | .bool a, .bool b => compare a b
  | .int a, .int b => compare a b
  | .float a, .float b => (a.partialCmp b).getD .eq
  | .int a, .float b => ((F64.ofInt64 a).partialCmp b).getD .eq
  | .float a, .int b => (a.partialCmp (F64.ofInt64 b)).getD .eq
  | .string a, .string b => compare a b
  | _, _ => .eq

/-- `compare_values_for_sort`. -/
def compareValuesForSort (a b : Value) (direction : OrderDirection) (nulls : NullsOrder) : Ordering :=
  let nullsLast : Bool := match nulls with
    | .first => false
    | .last => true
    | .default => direction == .asc
  match a, b with
  | .null, .null => .eq
  | .null, _ => if nullsLast then .gt else .lt
  | _, .null => if nullsLast then .lt else .gt
  | a, b =>
      match direction with
      | .asc => valueSortOrdering a b
      | .desc => (valueSortOrdering a b).swap

/-- `compare_keys`. -/
def compareKeys : List OrderByItem → List Value → List Value → Ordering
  | item :: items, a :: as, b :: bs =>
      (compareValuesForSort a b item.direction item.nullsOrder).then (compareKeys items as bs)
  | _, _, _ => .eq

/-- `sort_rows_by_keys`. -/
def sortRowsByKeys (orderBy : List OrderByItem) (pairs : List (List Value × Row)) (needed : Option ℕ) :
    List Row :=
  let cmp : List Value × Row → List Value × Row → Ordering := fun a b => compareKeys orderBy a.1 b.1
  let pairs := match needed with
    | some n => if n < pairs.length then (if n = 0 then [] else M.smallest cmp n pairs) else pairs
    | none => pairs
  (pairs.mergeSort fun a b => (cmp a b).isLE).map (·.2)

/-- `resolve_skip_limit`. -/
def resolveSkipLimit (e : Expression) : Except ExecuteError ℕ := do
  match ← M.evaluate x ∅ e with
  | .int n =>
      if 0 ≤ n then return n.toInt.toNat
      else throw (.typeError ("SKIP/LIMIT value must be a non-negative integer, got " ++ toString n))
  | value =>
      throw (.typeError ("SKIP/LIMIT value must be an integer, got " ++ M.texts.rowKey [value]))

/-- An optional `SKIP` or `LIMIT`. -/
def resolveOption (e : Option Expression) : Except ExecuteError (Option ℕ) :=
  match e with
  | none => .ok none
  | some e => (resolveSkipLimit M x e).map some

/-- Apply `SKIP` and `LIMIT`. -/
def slice {α : Type} (skip limit : Option ℕ) (rows : List α) : List α :=
  let rows := rows.drop (skip.getD 0)
  match limit with
  | some n => rows.take n
  | none => rows

/-! ## Result sets -/

/-- The row of a return clause, with its sort keys. -/
def returnRow (r : ReturnClause) (columns : List String) (b : Bindings) :
    Except ExecuteError (List Value × Row) := do
  let row ← r.items.mapM (evaluateReturnItem M x b)
  match r.orderBy with
  | some orderBy => return (← orderKeys M x orderBy columns row (some b), row)
  | none => return ([], row)

/-- The rows before `SKIP` and `LIMIT`: sorted, when there is an order. -/
def sortRows (r : ReturnClause) (skip limit : Option ℕ) (pairs : List (List Value × Row)) : List Row :=
  match r.orderBy with
  | some orderBy => sortRowsByKeys M orderBy pairs (limit.map (skip.getD 0 + ·))
  | none => pairs.map (·.2)

/-- `build_result_set`. -/
def buildResultSet (r : ReturnClause) (bs : List Bindings) : Except ExecuteError ResultSet :=
  if r.items.any isAggregate then M.aggregated x r bs
  else do
    let columns := r.items.map (returnItemToColumnName M)
    let pairs ← bs.mapM (returnRow M x r columns)
    let pairs := if r.distinct then distinctBy (fun p => M.texts.rowKey p.2) [] pairs else pairs
    let skip ← resolveOption M x r.skip
    let limit ← resolveOption M x r.limit
    return { columns := columns, rows := slice skip limit (sortRows M r skip limit pairs) }

/-! ## `WITH` -/

/-- What a variable is bound to after an item of `WITH`. -/
def withBinding (b : Bindings) (item : ReturnItem Expression) (value : Value) : BindingValue :=
  match item with
  | .variable name => (b.lookup name).getD (.ofValue value)
  | _ => .ofValue value

/-- Enter values under names. -/
def bindAll (names : List String) (values : List BindingValue) : Bindings :=
  (names.zip values).foldl (fun b e => b.insert e.1 e.2) ∅

/-- The row that `WITH` makes of a row, with its sort keys. -/
def withRow (w : WithClause) (names : List String) (b : Bindings) :
    Except ExecuteError (List Value × Bindings) := do
  let values ← w.items.mapM fun item => evaluateReturnItem M x b item.expression
  let new := bindAll names ((w.items.zip values).map fun e => withBinding b e.1.expression e.2)
  match w.orderBy with
  | some orderBy =>
      -- Sort keys may use both the incoming variables and the new ones.
      let scope := new.entries.foldl (fun b e => b.insert e.1 e.2) b
      return (← orderKeys M x orderBy names values (some scope), new)
  | none => return ([], new)

/-- `apply_with_clause`. -/
def applyWithClause (w : WithClause) (bs : List Bindings) : Except ExecuteError (List Bindings) :=
  let names := w.items.map (·.name M)
  if w.items.any fun item => isAggregate item.expression then do
    let r : ReturnClause :=
      { distinct := w.distinct
        items := w.items.map fun item =>
          match item.asName with
          | some name => .alias item.expression name
          | none => item.expression
        orderBy := w.orderBy
        skip := w.skip
        limit := w.limit }
    let rs ← M.aggregated x r bs
    return rs.rows.map fun row => bindAll names (row.map BindingValue.ofValue)
  else do
    let pairs ← bs.mapM (withRow M x w names)
    let pairs := if w.distinct then distinctBy (fun p => M.texts.bindingsKey p.2) [] pairs else pairs
    let pairs := match w.orderBy with
      | some orderBy => pairs.mergeSort fun a b => (compareKeys orderBy a.1 b.1).isLE
      | none => pairs
    let skip ← resolveOption M x w.skip
    let limit ← resolveOption M x w.limit
    return slice skip limit (pairs.map (·.2))

/-! ## Segments -/

/-- `is_pushable_const`. -/
def isPushableConst : Expression → Bool
  | .literal _ | .parameter _ => true
  | _ => false

/-- An equality `variable.property = constant` of a `WHERE` clause. -/
structure PushedEquality where
  var : String
  property : String
  value : Expression

/-- `collect_pushable_equalities`: the equalities joined by `AND` at the top. -/
def collectPushableEqualities : Expression → List PushedEquality
  | .binaryOp l .and r => collectPushableEqualities l ++ collectPushableEqualities r
  | .binaryOp l .eq r =>
      match l, r with
      | .property v p, rhs => if isPushableConst rhs then [⟨v, p, rhs⟩] else []
      | lhs, .property v p => if isPushableConst lhs then [⟨v, p, lhs⟩] else []
      | _, _ => []
  | _ => []

/-- A numeric literal as a property value. -/
def numericLiteral : Expression → Option PropertyValue
  | .literal (.int n) => some (.int n)
  | .literal (.float f) => some (.float f)
  | _ => none

/-- The comparison seen from the other side. -/
def flipComparison : BinaryOp → BinaryOp
  | .lt => .gt
  | .gt => .lt
  | .lte => .gte
  | .gte => .lte
  | op => op

/-- `matches!(op, Lt | Gt | Lte | Gte)`. -/
def isComparison : BinaryOp → Bool
  | .lt | .gt | .lte | .gte => true
  | _ => false

/-- `collect_range_predicates`. -/
def collectRangePredicates : Expression → List RangeHint
  | .binaryOp l .and r => collectRangePredicates l ++ collectRangePredicates r
  | .binaryOp l op r =>
      if isComparison op then
        match l, r with
        | .property v p, rhs => ((numericLiteral rhs).map fun val => ⟨v, p, op, val⟩).toList
        | lhs, .property v p =>
            ((numericLiteral lhs).map fun val => ⟨v, p, flipComparison op, val⟩).toList
        | _, _ => []
      else []
  | _ => []

/-- `augment_node_pattern`: an inline property that is there already stays. -/
def augmentNodePattern (eqs : List PushedEquality) (p : NodePattern Expression) :
    NodePattern Expression :=
  match p.var with
  | none => p
  | some var =>
      { p with
        properties := eqs.foldl (fun properties eq =>
          if eq.var = var ∧ properties.all (fun e => e.1 ≠ eq.property) then
            properties ++ [(eq.property, eq.value)]
          else properties) p.properties }

/-- `augment_patterns`. -/
def augmentPattern (eqs : List PushedEquality) : Pattern Expression → Pattern Expression
  | .node p => .node (augmentNodePattern eqs p)
  | .path p =>
      .path { p with
        start := augmentNodePattern eqs p.start
        segments := p.segments.map fun s => { s with node := augmentNodePattern eqs s.node } }

/-- A `MATCH` clause with the equalities of `WHERE` pushed into its patterns. -/
def augmentClause (eqs : List PushedEquality) (clause : MatchClause) : MatchClause :=
  if eqs.isEmpty || clause.optional then clause
  else { clause with patterns := clause.patterns.map (augmentPattern eqs) }

/-- One `MATCH` clause after the other. -/
def executeMatchClauses : List MatchClause → List Bindings → Except ExecuteError (List Bindings)
  | [], bs => .ok bs
  | clause :: clauses, bs =>
      (executeMatchClause M.search x (M.evaluate x) clause bs).bind (executeMatchClauses clauses)

/-- `WHERE`: a row whose condition fails to evaluate is dropped. -/
def whereHolds (condition : Expression) (b : Bindings) : Bool :=
  match M.evaluate x b condition with
  | .ok value => value.isTrue
  | .error _ => false

/-- The rows an optional `WHERE` keeps. -/
def retainWhere (condition : Option Expression) (bs : List Bindings) : List Bindings :=
  match condition with
  | some condition => bs.filter (whereHolds M x condition)
  | none => bs

/-- The hints set for a segment. -/
def segmentHints (segment : QuerySegment) : List RangeHint :=
  match segment.whereClause with
  | some condition => if x.propertyIndex.hasAnyIndex then collectRangePredicates condition else []
  | none => []

/-- The equalities pushed into the patterns of a segment. -/
def pushedEqualities (segment : QuerySegment) : List PushedEquality :=
  match segment.whereClause with
  | some condition => collectPushableEqualities condition
  | none => []

/-- `execute_query_segment`.  A failing `MATCH` clause leaves the hints of the segment behind. -/
def executeQuerySegment (segment : QuerySegment) (bs : List Bindings) :
    Executor σ × Except ExecuteError (List Bindings) :=
  let hinted : Executor σ := { x with rangeHints := segmentHints x segment }
  let clauses := segment.matchClauses.map (augmentClause (pushedEqualities segment))
  match executeMatchClauses M hinted clauses bs with
  | .error e => (hinted, .error e)
  | .ok bs =>
      let x : Executor σ := { x with rangeHints := [] }
      let bs := retainWhere M x segment.whereClause bs
      (x, match segment.withClause with
        | some w => applyWithClause M x w bs
        | none => .ok bs)

end Maharit
