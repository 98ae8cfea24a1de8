import MaharitDb.Query.Segment

/-!
# `MATCH` statements

`execute_match` of `maharit-query/src/executor.rs`: the segments of the statement one after the other,
the `CALL` subquery, and the result set.  A `LIMIT` without order or aggregation cuts the rows off as
soon as a segment has enough of them.
-/

namespace Maharit

variable {σ : Type} [GraphBackend σ] (M : Semantics σ) (x : Executor σ)

/-! ## Counting -/

/-- `is_plain_count`. -/
def isPlainCount (nodeVar : Option String) : ReturnItem Expression → Bool
  | .alias item _ => isPlainCount nodeVar item
  | .aggregate (.count none) => true
  | .aggregate (.count (some (.variable name))) => nodeVar == some name
  | _ => false

/-- `try_simple_count`: `MATCH (n:L) RETURN count(*)` without filters. -/
def trySimpleCount (m : MatchStatement) : Option ResultSet :=
  match m.callClause, m.segments with
  | none, [⟨[⟨[.node p], false⟩], none, none⟩] =>
      let r := m.returnClause
      if !p.properties.isEmpty || 1 < p.labels.length then none
      else if r.orderBy.isSome || r.skip.isSome || r.limit.isSome || r.items.isEmpty then none
      else if !r.items.all (isPlainCount p.var) then none
      else
        let count := match p.labels.head? with
          | some label => (GraphBackend.nodesByLabel x.graph label).length
          | none => GraphBackend.nodeCount x.graph
        some
          { columns := r.items.map (returnItemToColumnName M)
            rows := [r.items.map fun _ => .int (Int64.ofNat count)] }
  | _, _ => none

/-! ## `CALL` subqueries -/

/-- The bindings a branch starts from: the imported variables only. -/
def importBindings (imports : Option (List String)) (outer : Bindings) : Bindings :=
  (imports.getD []).foldl (fun b name =>
    match outer.lookup name with
    | some value => b.insert name value
    | none => b) ∅

/-- `call_subquery_branch_rows`. -/
def callSubqueryBranchRows (branch : CallBranch) (outer : Bindings) :
    Except ExecuteError (List String × List Row) := do
  let bs ← executeMatchClause M.search x (M.evaluate x) branch.matchClause
    [importBindings branch.withImport outer]
  let bs := retainWhere M x branch.whereClause bs
  let rs ← buildResultSet M x
    { distinct := false
      items := branch.returnItems.map (·.expression)
      orderBy := none
      skip := none
      limit := none } bs
  let names := branch.returnItems.mapIdx fun i item =>
    item.asName.getD (rs.columns.getD i ("col" ++ toString i))
  return (names, rs.rows)

/-- The rows of the branches that follow; they must have the columns of the first one. -/
def unionRows (names : List String) (outer : Bindings) :
    List (UnionType × CallBranch) → Except ExecuteError (List Row)
  | [] => .ok []
  | (_, branch) :: branches => do
      let (names', rows) ← callSubqueryBranchRows M x branch outer
      if names' ≠ names then
        throw (.typeError ("all UNION branches in CALL \x7b\x7d must return the same columns: [" ++
          ", ".intercalate names ++ "] vs [" ++ ", ".intercalate names' ++ "]"))
      return rows ++ (← unionRows names outer branches)

/-- The rows that a `CALL` subquery makes of one row. -/
def callRows (call : CallSubquery) (outer : Bindings) : Except ExecuteError (List Bindings) := do
  let (names, rows) ← callSubqueryBranchRows M x call.branch outer
  let rows := rows ++ (← unionRows M x names outer call.unions)
  let rows := if call.unions.any (·.1 == .union) then distinctBy M.texts.rowText [] rows else rows
  return rows.map fun row =>
    (names.zip row).foldl (fun b e => b.insert e.1 (.scalar e.2)) outer

/-- `execute_call_subquery`; a row without inner rows is dropped. -/
def executeCallSubquery (call : CallSubquery) (bs : List Bindings) :
    Except ExecuteError (List Bindings) :=
  Except.collect (callRows M x call) bs

/-! ## The statement -/

/-- The number of rows after which a segment is cut off. -/
def earlyLimit (r : ReturnClause) : Option ℕ :=
  if !r.items.any isAggregate && r.orderBy.isNone then
    (r.limit.bind fun e => (resolveSkipLimit M x e).toOption).map fun n =>
      n + (r.skip.bind fun e => (resolveSkipLimit M x e).toOption).getD 0
  else none

/-- The segments one after the other, until one of them has enough rows. -/
def executeSegments (limit : Option ℕ) : Executor σ → List QuerySegment → List Bindings →
    Executor σ × Except ExecuteError (List Bindings)
  | x, [], bs => (x, .ok bs)
  | x, segment :: segments, bs =>
      match executeQuerySegment M x segment bs with
      | (x, .error e) => (x, .error e)
      | (x, .ok bs) =>
          if limit.any (· ≤ bs.length) then (x, .ok (bs.take (limit.getD 0)))
          else executeSegments limit x segments bs

/-- The `CALL` subquery and the result set, on the rows of the segments. -/
def finishMatch (call : Option CallSubquery) (r : ReturnClause) (bs : List Bindings) :
    Except ExecuteError ResultSet :=
  match call with
  | some call => (executeCallSubquery M x call bs).bind (buildResultSet M x r)
  | none => buildResultSet M x r bs

/-- `execute_match`. -/
def executeMatch (m : MatchStatement) : Executor σ × Except ExecuteError ResultSet :=
  match trySimpleCount M x m with
  | some rs => (x, .ok rs)
  | none =>
      match executeSegments M (earlyLimit M x m.returnClause) x m.segments [∅] with
      | (x, .error e) => (x, .error e)
      | (x, .ok bs) => (x, finishMatch M x m.callClause m.returnClause bs)

end Maharit
