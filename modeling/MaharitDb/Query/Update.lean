import MaharitDb.Lib.Stateful
import MaharitDb.Query.MatchStatement

/-!
# Statements that write

`CREATE`, `SET`, `REMOVE`, `DELETE`, `MERGE`, `UNWIND` and `FOREACH` of
`maharit-query/src/executor.rs`.  The methods of the executor that take `&mut self` are computations
on its state; those that take `&self` are functions of it.
-/

namespace Maharit

/-- A method of the executor that may write. -/
abbrev Exec (σ : Type) := Stateful ExecuteError (Executor σ)

variable {σ : Type} [GraphBackend σ] (A : TextAnalysis) (M : Semantics σ)

/-- Call a writing operation of the graph. -/
def Exec.onGraph {α : Type} (f : σ → σ × α) : Exec σ α := fun x =>
  ({ x with graph := (f x.graph).1 }, .ok (f x.graph).2)

/-- A check of the constraint manager. -/
def Exec.validate (check : Executor σ → Except ConstraintError Unit) : Exec σ Unit :=
  Stateful.read fun x => (check x).mapError .constraintError

/-! ## Properties -/

/-- `value_to_property`. -/
def valueToProperty : Value → Except ExecuteError PropertyValue
  | .null => .ok .null
  | .bool b => .ok (.bool b)
  | .int n => .ok (.int n)
  | .float f => .ok (.float f)
  | .string s => .ok (.string s)
  | .date days => .ok (.date days)
  | .dateTime ms => .ok (.dateTime ms)
  | .duration months days millis => .ok (.duration months days millis)
  | _ => .error (.typeError "cannot convert to property value")

/-- Evaluate a property of a pattern or of `SET`. -/
def evaluatePropertyValue (e : Expression) (b : Bindings) : Exec σ PropertyValue :=
  Stateful.read fun x => (M.evaluate x b e).bind valueToProperty

/-- Evaluate a property map. -/
def evaluateProperties (properties : List (String × Expression)) (b : Bindings) :
    Exec σ (List (String × PropertyValue)) :=
  Stateful.mapList (fun property => do return (property.1, ← evaluatePropertyValue M property.2 b))
    properties

/-- The property map with the given entries. -/
def propertiesOf (entries : List (String × PropertyValue)) : Properties :=
  entries.foldl (fun m e => m.insert e.1 e.2) ∅

/-- `reindex_node_property`: an index of the primary label follows the change. -/
def reindexNodeProperty (id : NodeId) (property : String) (old new : Option PropertyValue)
    (x : Executor σ) : Executor σ :=
  match GraphBackend.getNode x.graph id with
  | none => x
  | some n =>
      if x.propertyIndex.hasIndex n.primaryLabel property then
        let ix := match old with
          | some value => x.propertyIndex.unindexProperty id property value
          | none => x.propertyIndex
        { x with
          propertyIndex := match new with
            | some value => ix.indexProperty id property value
            | none => ix }
      else x

/-- The check made before a property of a node is set. -/
def validateSet (id : NodeId) (property : String × PropertyValue) : Exec σ Unit :=
  Exec.validate fun x =>
    match GraphBackend.getNode x.graph id with
    | some n => x.constraints.validatePropertySet x.graph n property.1 property.2
    | none => .ok ()

/-- Set a property of a node and let its index follow. -/
def assignNodeProperty (id : NodeId) (property : String × PropertyValue) : Exec σ Unit :=
  Stateful.modify fun x =>
    let old := GraphBackend.getNodeProperty x.graph id property.1
    reindexNodeProperty id property.1 old (some property.2)
      { x with graph := GraphBackend.setNodeProperty x.graph id property.1 property.2 }

/-- Set a property of an edge. -/
def assignEdgeProperty (id : EdgeId) (property : String × PropertyValue) : Exec σ Unit :=
  Stateful.modify fun x =>
    { x with graph := GraphBackend.setEdgeProperty x.graph id property.1 property.2 }

/-! ## `CREATE` -/

/-- Enter the properties of a new node in the indexes of its primary label. -/
def indexNewNode (id : NodeId) (label : String) (properties : List (String × PropertyValue)) :
    Exec σ Unit :=
  Stateful.modify fun x =>
    { x with
      fulltext := x.fulltext.indexNode A id label (propertiesOf properties)
      propertyIndex := properties.foldl (fun ix e =>
        if ix.hasIndex label e.1 then ix.indexProperty id e.1 e.2 else ix) x.propertyIndex }

/-- `create_node`. -/
def createNode (p : NodePattern Expression) (b : Bindings) : Exec σ (NodeId × Bindings) := do
  let primaryLabel := p.labels.headD ""
  let properties ← evaluateProperties M p.properties b
  Exec.validate fun x =>
    x.constraints.validateNodeCreate x.graph primaryLabel (propertiesOf properties).lookup none
  let id ← Exec.onGraph fun g => GraphBackend.createNodeWithLabels g p.labels
  properties.forM fun e => Stateful.modify fun x =>
    { x with graph := GraphBackend.setNodeProperty x.graph id e.1 e.2 }
  indexNewNode A id primaryLabel properties
  return (id, bindVar b p.var (.node id))

/-- What a `CREATE` clause has made so far. -/
structure Created where
  nodes : ℕ
  edges : ℕ
  bindings : Bindings

/-- A node of a path: the one its variable is bound to, or else a new one. -/
def createEndpoint (message : String) (p : NodePattern Expression) (c : Created) :
    Exec σ (NodeId × Created) :=
  match p.var.bind c.bindings.lookup with
  | some bound =>
      match bound.asNode with
      | some id => pure (id, c)
      | none => Stateful.fail (.typeError message)
  | none => do
      let (id, b) ← createNode A M p c.bindings
      return (id, { c with nodes := c.nodes + 1, bindings := b })

/-- The edge of a hop. -/
def createHopEdge (p : EdgePattern Expression) (prev next : NodeId) (b : Bindings) :
    Exec σ EdgeId := do
  let (fromId, toId) := match p.direction with
    | .outgoing => (prev, next)
    | .incoming => (next, prev)
    | .both => (prev, next)
  let label := p.edgeType.getD ""
  Exec.validate fun x => x.constraints.validateEdgeCreate x.graph label fromId toId
  let created ← Exec.onGraph fun g => GraphBackend.createEdge g fromId toId label
  let id ← Stateful.read fun _ => created.mapError .graphError
  let properties ← evaluateProperties M p.properties b
  properties.forM (assignEdgeProperty id)
  return id

/-- The hops of a path of `CREATE`. -/
def createHops : List (PathSegment Expression) → NodeId → Created → Exec σ Created
  | [], _, c => pure c
  | segment :: segments, prev, c => do
      let (next, c) ← createEndpoint A M "expected node binding" segment.node c
      let id ← createHopEdge M segment.edge prev next c.bindings
      createHops segments next
        { c with edges := c.edges + 1, bindings := bindVar c.bindings segment.edge.var (.edge id) }

/-- A pattern of `CREATE`. -/
def createClausePattern (c : Created) : Pattern Expression → Exec σ Created
  | .node p =>
      if (p.var.bind c.bindings.lookup).isSome then pure c
      else do
        let (_, b) ← createNode A M p c.bindings
        return { c with nodes := c.nodes + 1, bindings := b }
  | .path p => do
      let (start, c) ← createEndpoint A M "expected node binding" p.start c
      createHops A M p.segments start c

/-- `execute_create_with_bindings`. -/
def executeCreateWithBindings (patterns : List (Pattern Expression)) (b : Bindings) :
    Exec σ Created :=
  patterns.foldlM (createClausePattern A M) ⟨0, 0, b⟩

/-- A result of one row. -/
def ResultSet.single (columns : List String) (row : Row) : ResultSet := ⟨columns, [row]⟩

/-- The numbers of created nodes and edges. -/
def createdResult (nodes edges : ℕ) : ResultSet :=
  .single ["created_nodes", "created_edges"] [.int (.ofNat nodes), .int (.ofNat edges)]

/-- `CREATE` for every row, with the sums of the numbers of created elements. -/
def createForRows (patterns : List (Pattern Expression)) (bs : List Bindings) :
    Exec σ (ℕ × ℕ × List Bindings) := do
  let created ← Stateful.mapList (executeCreateWithBindings A M patterns) bs
  return ((created.map (·.nodes)).sum, (created.map (·.edges)).sum, created.map (·.bindings))

/-- `build_result_set`. -/
def Exec.result (r : ReturnClause) (bs : List Bindings) : Exec σ ResultSet :=
  Stateful.read fun x => buildResultSet M x r bs

/-- The result of a statement whose `RETURN` is optional. -/
def Exec.resultOr (r : Option ReturnClause) (bs : List Bindings) (summary : ResultSet) :
    Exec σ ResultSet :=
  match r with
  | some r => Exec.result M r bs
  | none => pure summary

/-- `execute_create`. -/
def executeCreate (patterns : List (Pattern Expression)) : Exec σ ResultSet := do
  let c ← executeCreateWithBindings A M patterns ∅
  return createdResult c.nodes c.edges

/-- The segments of a statement that writes, one after the other. -/
def matchSegmentsOf (segments : List QuerySegment) (bs : List Bindings) : Exec σ (List Bindings) :=
  segments.foldlM (fun bs segment x => executeQuerySegment M x segment bs) bs

/-- The rows of a statement that writes: its segments, and its own `WHERE` after them. -/
def matchRows (segments : List QuerySegment) (whereClause : Option Expression) :
    Exec σ (List Bindings) := do
  let bs ← matchSegmentsOf M segments [∅]
  Stateful.read fun x => .ok (retainWhere M x whereClause bs)

/-- `execute_match_create`. -/
def executeMatchCreate (mc : MatchCreateStatement) : Exec σ ResultSet := do
  let bs ← matchRows M mc.segments mc.whereClause
  let (nodes, edges, bs) ← createForRows A M mc.createClause bs
  Exec.resultOr M mc.returnClause bs (createdResult nodes edges)

/-! ## `SET` -/

/-- What the variable of an update is bound to. -/
def boundTo (b : Bindings) (name : String) : Exec σ BindingValue :=
  match b.lookup name with
  | some value => pure value
  | none => Stateful.fail (.undefinedVariable name)

/-- An item of `SET`, for one row. -/
def applySetItem (b : Bindings) : SetItem → Exec σ Unit
  | .property name property e => do
      let bound ← boundTo b name
      let value ← evaluatePropertyValue M e b
      match bound with
      | .node id =>
          validateSet id (property, value)
          assignNodeProperty id (property, value)
      | .edge id => assignEdgeProperty id (property, value)
      | _ => Stateful.fail (.typeError "SET requires node or edge binding")
  | .mergeProperties name properties => do
      let bound ← boundTo b name
      let properties ← evaluateProperties M properties b
      match bound with
      | .node id =>
          -- All properties are checked before the first one is set.
          properties.forM (validateSet id)
          properties.forM (assignNodeProperty id)
      | .edge id => properties.forM (assignEdgeProperty id)
      | _ => Stateful.fail (.typeError "SET += requires node or edge binding")
  | .addLabel name label => do
      match ← boundTo b name with
      | .node id =>
          Stateful.modify fun x => { x with graph := GraphBackend.addNodeLabel x.graph id label }
      | _ => Stateful.fail (.typeError "SET n:Label requires a node binding")

/-- `apply_set_clause`. -/
def applySetClause (items : List SetItem) (bs : List Bindings) : Exec σ Unit :=
  bs.forM fun b => items.forM (applySetItem M b)

/-- An optional `SET` clause. -/
def applySetOption (items : Option (List SetItem)) (bs : List Bindings) : Exec σ Unit :=
  match items with
  | some items => applySetClause M items bs
  | none => pure ()

/-! ## `REMOVE` -/

/-- An item of `REMOVE`, for one row. -/
def applyRemoveItem (b : Bindings) : RemoveItem → Exec σ Unit
  | .property name property => do
      match ← boundTo b name with
      | .node id =>
          Exec.validate fun x =>
            match GraphBackend.getNode x.graph id with
            | some n => x.constraints.validatePropertyRemove n property
            | none => .ok ()
          let removed ← Exec.onGraph fun g => GraphBackend.removeNodeProperty g id property
          match removed with
          | some old => Stateful.modify (reindexNodeProperty id property (some old) none)
          | none => pure ()
      | .edge id =>
          let _ ← Exec.onGraph fun g => GraphBackend.removeEdgeProperty g id property
      | _ => Stateful.fail (.typeError "REMOVE requires node or edge binding")
  | .label name label =>
      match (b.lookup name).bind (·.asNode) with
      | some id =>
          Stateful.modify fun x => { x with graph := GraphBackend.removeNodeLabel x.graph id label }
      | none => Stateful.fail (.undefinedVariable name)

/-- `apply_remove_clause`. -/
def applyRemoveClause (items : List RemoveItem) (b : Bindings) : Exec σ Unit :=
  items.forM (applyRemoveItem b)

/-- `apply_update_clauses`. -/
def applyUpdateClauses (updates : List UpdateClause) (bs : List Bindings) : Exec σ Unit :=
  updates.forM fun update =>
    match update with
    | .set items => applySetClause M items bs
    | .remove items => bs.forM (applyRemoveClause items)

/-- `execute_match_set`. -/
def executeMatchSet (ms : MatchSetStatement) : Exec σ ResultSet := do
  let bs ← matchRows M ms.segments ms.whereClause
  applySetClause M ms.setClause bs
  applyUpdateClauses M ms.moreUpdates bs
  Exec.resultOr M ms.returnClause bs
    (.single ["properties_set"] [.int (.ofNat (ms.setClause.length * bs.length))])

/-- `execute_match_remove`. -/
def executeMatchRemove (mr : MatchRemoveStatement) : Exec σ ResultSet := do
  let bs ← matchRows M mr.segments mr.whereClause
  bs.forM (applyRemoveClause mr.removeClause)
  applyUpdateClauses M mr.moreUpdates bs
  Exec.resultOr M mr.returnClause bs
    (.single ["properties_removed"] [.int (.ofNat (mr.removeClause.length * bs.length))])

/-! ## `DELETE` -/

/-- The nodes that the targets of `DELETE` are bound to, each once. -/
def nodesToDelete (targets : List String) (bs : List Bindings) : List NodeId :=
  (bs.flatMap fun b => targets.filterMap fun name => (b.lookup name).bind (·.asNode)).eraseDups

/-- The edges that the targets of `DELETE` are bound to, each once. -/
def edgesToDelete (targets : List String) (bs : List Bindings) : List EdgeId :=
  (bs.flatMap fun b => targets.filterMap fun name =>
    match b.lookup name with
    | some (.edge id) => some id
    | _ => none).eraseDups

/-- Delete edges; how many there were. -/
def deleteEdges (ids : List EdgeId) : Exec σ ℕ :=
  ids.foldlM (fun n id => do
    let deleted ← Exec.onGraph fun g => GraphBackend.deleteEdge g id
    return if deleted.isSome then n + 1 else n) 0

/-- Delete a node; without `DETACH` only if it has no edges. -/
def deleteNodeOf (detach : Bool) (id : NodeId) : Exec σ Bool := fun x =>
  if !detach && GraphBackend.hasIncidentEdges x.graph id then (x, .ok false)
  else
    ({ x with graph := (GraphBackend.deleteNode x.graph id).1 },
      .ok (GraphBackend.deleteNode x.graph id).2.isSome)

/-- `execute_delete`. -/
def executeDelete (d : DeleteStatement) : Exec σ ResultSet := do
  let bs ← Stateful.read fun x => matchPatterns M.search x (M.evaluate x) d.patterns [∅]
  let bs ← Stateful.read fun x => .ok (retainWhere M x d.whereClause bs)
  applySetOption M d.setClause bs
  let edges ← deleteEdges (edgesToDelete d.deleteClause.targets bs)
  let nodes ← (nodesToDelete d.deleteClause.targets bs).foldlM (fun (n : ℕ) id => do
    if ← deleteNodeOf d.deleteClause.detach id then
      Stateful.modify fun x => { x with propertyIndex := x.propertyIndex.removeNode id }
      return n + 1
    else return n) 0
  return .single ["deleted_nodes", "deleted_edges"] [.int (.ofNat nodes), .int (.ofNat edges)]

/-- `apply_delete_clause`, the `DELETE` of `FOREACH`.  The property index keeps the entries of the
deleted nodes. -/
def applyDeleteClause (d : DeleteClause) (b : Bindings) : Exec σ Unit := do
  let _ ← deleteEdges (edgesToDelete d.targets [b])
  (nodesToDelete d.targets [b]).forM fun id => do
    let _ ← deleteNodeOf d.detach id

/-! ## `MERGE` -/

/-- The hops of a path of `MERGE`.  The variables of the relationships stay unbound. -/
def mergeHops : List (PathSegment Expression) → NodeId → Created → Exec σ Created
  | [], _, c => pure c
  | segment :: segments, prev, c => do
      let (next, c) ← createEndpoint A M "expected node" segment.node c
      let _ ← createHopEdge M segment.edge prev next c.bindings
      mergeHops segments next { c with edges := c.edges + 1 }

/-- `create_pattern`. -/
def createPattern (c : Created) : Pattern Expression → Exec σ Created
  | .node p =>
      if (p.var.bind c.bindings.lookup).isSome then pure c
      else do
        let (_, b) ← createNode A M p c.bindings
        return { c with nodes := c.nodes + 1, bindings := b }
  | .path p => do
      let (start, c) ← createEndpoint A M "expected node" p.start c
      mergeHops A M p.segments start c

/-- The rows that the patterns of `MERGE` find for a row. -/
def mergeMatches (patterns : List (Pattern Expression)) (b : Bindings) : Exec σ (List Bindings) :=
  Stateful.read fun x => matchPatterns M.search x (M.evaluate x) patterns [b]

/-- `MERGE` for one row. -/
def mergeRow (m : MergeStatement) (b : Bindings) : Exec σ (List Bindings) := do
  let found ← mergeMatches M m.patterns b
  if found.isEmpty then
    let created ← m.patterns.foldlM (createPattern A M) ⟨0, 0, b⟩
    applySetOption M m.onCreateSet [created.bindings]
    return [created.bindings]
  else
    applySetOption M m.onMatchSet found
    return found

/-- `execute_merge`.  `WHERE` is applied only after a `MATCH` clause. -/
def executeMerge (m : MergeStatement) : Exec σ ResultSet := do
  let bs ← Stateful.read fun x =>
    if m.matchClauses.isEmpty then .ok [∅]
    else (executeMatchClauses M x m.matchClauses [∅]).map (retainWhere M x m.whereClause)
  let rows ← Stateful.mapList (mergeRow A M m) bs
  Exec.resultOr M m.returnClause rows.flatten (.single ["merge_result"] [.string "ok"])

/-! ## `UNWIND` and `FOREACH` -/

/-- The list of `UNWIND` or `FOREACH`. -/
def evaluateListOf (what : String) (e : Expression) (b : Bindings) : Exec σ (List Value) :=
  Stateful.read fun x =>
    (M.evaluate x b e).bind fun value =>
      match value with
      | .list items => .ok items
      | _ => .error (.typeError (what ++ " requires a list expression"))

/-- `execute_unwind`. -/
def executeUnwind (uw : UnwindStatement) : Exec σ ResultSet := do
  let items ← evaluateListOf M "UNWIND" uw.expression ∅
  let bs := items.map fun item => bindScalar ∅ uw.var item
  match uw.createClause with
  | some patterns =>
      let (nodes, edges, bs) ← createForRows A M patterns bs
      applySetOption M uw.setClause bs
      Exec.resultOr M uw.returnClause bs (createdResult nodes edges)
  | none =>
      Exec.resultOr M uw.returnClause bs (.single ["unwound_rows"] [.int (.ofNat bs.length)])

/-- How `FOREACH` binds an item: nodes as such. -/
def foreachBinding : Value → BindingValue
  | .node id => .node id
  | .nodeData id _ _ => .node id
  | value => .scalar value

mutual

/-- `execute_foreach_clause`. -/
def executeForeachClause : ForeachClause → Bindings → Exec σ Unit
  | .create patterns, b => do
      let _ ← executeCreateWithBindings A M patterns b
  | .set items, b => applySetClause M items [b]
  | .remove items, b => applyRemoveClause items b
  | .delete clause, b => applyDeleteClause clause b
  | .merge patterns, b => do
      let found ← mergeMatches M patterns b
      if found.isEmpty then
        let _ ← patterns.foldlM (createPattern A M) ⟨0, 0, b⟩
  | .foreach statement, b => executeForeachStmtRef statement b

/-- The clauses of `FOREACH` for one item. -/
def executeForeachClauses : List ForeachClause → Bindings → Exec σ Unit
  | [], _ => pure ()
  | clause :: clauses, b => do
      executeForeachClause clause b
      executeForeachClauses clauses b

/-- `execute_foreach_stmt_ref`. -/
def executeForeachStmtRef : ForeachStatement → Bindings → Exec σ Unit
  | .mk var list clauses, b => do
      let items ← evaluateListOf M "FOREACH" list b
      items.forM fun item => executeForeachClauses clauses (b.insert var (foreachBinding item))

end

/-- The result of `FOREACH`. -/
def foreachResult : ResultSet := .single ["foreach_result"] [.string "ok"]

/-- `execute_match_foreach`. -/
def executeMatchForeach (mf : MatchForeachStatement) : Exec σ ResultSet := do
  let bs ← matchSegmentsOf M mf.segments [∅]
  bs.forM (executeForeachStmtRef A M mf.foreachClause)
  return foreachResult

end Maharit
