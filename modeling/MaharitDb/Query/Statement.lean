import MaharitDb.Query.LimitPrefix
import MaharitDb.Query.Update

/-!
# Executing statements

`execute` of `maharit-query/src/executor.rs`, with the statements on the schema, the procedures, and
`EXPLAIN` and `PROFILE`.  The text of an execution plan is the parameter `Planner`.

A statement that `is_read_only` accepts leaves the graph, the constraints, the full-text indexes and
the property indexes as they were, whether it fails or not.  The server relies on it: it runs such a
statement under a shared lock, and records nothing of it.  Patterns and expressions, with the
subqueries in them, are evaluated by methods that take the executor by shared reference; here they are
functions of its state, and only the statements themselves thread it.
-/

namespace Maharit

/-- The execution plan of a statement, as lines of text. -/
structure Planner where
  /-- `build_plan`, for the numbers of nodes and edges. -/
  plan : Statement → ℕ → ℕ → List String
  /-- The plan with the number of rows and the time in its last node. -/
  profiled : Statement → ℕ → ℕ → ℕ → ℕ → List String
  /-- How long a statement took, in microseconds. -/
  elapsed : Statement → ℕ

variable {σ : Type} [GraphBackend σ] (A : TextAnalysis) (M : Semantics σ) (P : Planner)

/-- A result of one text. -/
def textResult (text : String) : ResultSet := .single ["result"] [.string text]

/-! ## `UNION` -/

/-- The rows of all queries of a `UNION`, which must have as many columns as the first one. -/
def unionResults (unionType : UnionType) (results : List ResultSet) : Except ExecuteError ResultSet :=
  match results with
  | [] => .ok ⟨[], []⟩
  | first :: _ =>
      match (results.zipIdx).find? fun e => e.1.columns.length ≠ first.columns.length with
      | some (rs, i) =>
          .error (.typeError ("UNION: all queries must have the same number of columns (query 1 has " ++
            toString first.columns.length ++ ", query " ++ toString (i + 1) ++ " has " ++
            toString rs.columns.length ++ ")"))
      | none =>
          let rows := results.flatMap (·.rows)
          .ok ⟨first.columns, if unionType = .union then distinctBy M.texts.rowText [] rows else rows⟩

/-- `execute_union`. -/
def executeUnion (u : UnionStatement) : Exec σ ResultSet := do
  let results ← Stateful.mapList (fun query x => executeMatch M x query) u.queries
  Stateful.read fun _ => unionResults M u.unionType results

/-! ## The schema -/

def PropertyTypeAst.toType : PropertyTypeAst → PropertyType
  | .integer => .int
  | .float => .float
  | .string => .string
  | .boolean => .bool

def ConstraintTypeAst.toType : ConstraintTypeAst → ConstraintType
  | .unique => .unique
  | .notNull => .notNull
  | .typeCheck type => .typeCheck type.toType
  | .requiredLabel label => .requiredLabel label
  | .endpointLabel source target => .endpointLabel source target

/-- `execute_create_constraint`. -/
def executeCreateConstraint (cc : CreateConstraintStatement) : Exec σ ResultSet := fun x =>
  match x.constraints.createConstraint ⟨cc.name, cc.label, cc.properties, cc.constraintType.toType⟩ with
  | .ok constraints =>
      ({ x with constraints := constraints },
        .ok (textResult ("Constraint '" ++ cc.name ++ "' created")))
  | .error e => (x, .error (.constraintError e))

/-- `execute_drop_constraint`. -/
def executeDropConstraint (name : String) : Exec σ ResultSet := fun x =>
  match x.constraints.dropConstraint name with
  | .ok constraints =>
      ({ x with constraints := constraints }, .ok (textResult ("Constraint '" ++ name ++ "' dropped")))
  | .error e => (x, .error (.constraintError e))

def PropertyType.text : PropertyType → String
  | .bool => "BOOLEAN"
  | .int => "INTEGER"
  | .float => "FLOAT"
  | .string => "STRING"

def ConstraintType.text : ConstraintType → String
  | .unique => "UNIQUE"
  | .notNull => "NOT NULL"
  | .typeCheck type => "TYPE(" ++ type.text ++ ")"
  | .requiredLabel label => "REQUIRED_LABEL(" ++ label ++ ")"
  | .endpointLabel source target => "ENDPOINT_LABEL(" ++ source ++ "->" ++ target ++ ")"

/-- `execute_show_constraints`: sorted by name. -/
def executeShowConstraints (x : Executor σ) : ResultSet where
  columns := ["name", "label", "properties", "type"]
  rows := (x.constraints.values.mergeSort fun a b => decide (a.name ≤ b.name)).map fun c =>
    [.string c.name, .string c.label, .string (", ".intercalate c.properties),
      .string c.constraintType.text]

/-- The nodes that carry a label. -/
def labelledNodes (x : Executor σ) (label : String) : List NodeId :=
  ((GraphBackend.allNodes x.graph).filter (·.hasLabel label)).map (·.id)

/-- `execute_create_fulltext_index`. -/
def executeCreateFulltextIndex (cfi : CreateFulltextIndexStatement) : Exec σ ResultSet := fun x =>
  match x.fulltext.createIndex cfi.name cfi.label cfi.properties with
  | .error e => (x, .error (.fulltextError e))
  | .ok fulltext =>
      ({ x with
          fulltext := (labelledNodes x cfi.label).foldl (fun m id =>
            match GraphBackend.getNode x.graph id with
            | some n => m.indexNode A id cfi.label n.properties
            | none => m) fulltext },
        .ok (textResult ("Fulltext index '" ++ cfi.name ++ "' created")))

/-- `execute_drop_fulltext_index`. -/
def executeDropFulltextIndex (name : String) : Exec σ ResultSet := fun x =>
  match x.fulltext.dropIndex name with
  | .ok fulltext =>
      ({ x with fulltext := fulltext }, .ok (textResult ("Fulltext index '" ++ name ++ "' dropped")))
  | .error e => (x, .error (.fulltextError e))

/-- `execute_create_index`. -/
def executeCreateIndex (label property : String) : Exec σ ResultSet := fun x =>
  ({ x with
      propertyIndex := (labelledNodes x label).foldl (fun ix id =>
        match (GraphBackend.getNode x.graph id).bind (·.getProperty property) with
        | some value => ix.indexProperty id property value
        | none => ix) (x.propertyIndex.createIndex ⟨label, property⟩) },
    .ok (textResult ("Index created on :" ++ label ++ "(" ++ property ++ ")")))

/-- `execute_drop_index`. -/
def executeDropIndex (label property : String) : Exec σ ResultSet := fun x =>
  ({ x with propertyIndex := x.propertyIndex.dropIndex label property },
    .ok (textResult ("Index dropped on :" ++ label ++ "(" ++ property ++ ")")))

/-- `execute_show_indexes`. -/
def executeShowIndexes (x : Executor σ) : ResultSet where
  columns := ["label", "property"]
  rows := x.propertyIndex.definitions.entries.map fun e => [.string e.2.label, .string e.2.property]

/-! ## Procedures -/

/-- An argument that must be a string. -/
def stringArgument (message : String) : Value → Except ExecuteError String
  | .string s => .ok s
  | _ => .error (.typeError message)

/-- `fulltext_search_procedure`. -/
def fulltextSearchProcedure (x : Executor σ) (arguments : List Expression) :
    Except ExecuteError (List String × List Bindings) :=
  match arguments with
  | [nameArgument, queryArgument] => do
      let name ← stringArgument
        "db.index.fulltext.search: first argument must be a string (index name)"
        (← M.evaluate x ∅ nameArgument)
      let query ← stringArgument "db.index.fulltext.search: second argument must be a string (query)"
        (← M.evaluate x ∅ queryArgument)
      let results ← (x.fulltext.search A name query).mapError .fulltextError
      return (["node", "score"], results.map fun r =>
        bindScalar (AList.insert "node" (.node r.1) ∅) "score" (.float r.2))
  | _ => .error (.typeError
      "db.index.fulltext.search requires exactly 2 arguments: (indexName, query)")

/-- `labels_procedure`: the labels of all nodes, sorted. -/
def labelsProcedure (x : Executor σ) (arguments : List Expression) :
    Except ExecuteError (List String × List Bindings) :=
  if arguments.isEmpty then
    let labels := ((GraphBackend.allNodes x.graph).flatMap (·.labels)).dedup
    .ok (["label"], (labels.mergeSort fun a b => decide (a ≤ b)).map fun label =>
      bindScalar ∅ "label" (.string label))
  else .error (.typeError "db.labels takes no arguments")

/-- The columns and the rows of a procedure. -/
def procedureRows (x : Executor σ) (procedure : String) (arguments : List Expression) :
    Except ExecuteError (List String × List Bindings) :=
  if procedure = "db.index.fulltext.search" then fulltextSearchProcedure A M x arguments
  else if procedure = "db.labels" then labelsProcedure x arguments
  else .error (.typeError ("unknown procedure: " ++ procedure))

/-- `YIELD`: the named columns only, under their new names. -/
def yieldRows (procedure : String) (items : List YieldItem) (columns : List String)
    (rows : List Bindings) : Except ExecuteError (List String × List Bindings) :=
  if items.isEmpty then .ok (columns, rows)
  else
    match items.find? fun item => item.column ∉ columns with
    | some item =>
        .error (.typeError (procedure ++ " does not yield '" ++ item.column ++ "' (available: " ++
          ", ".intercalate columns ++ ")"))
    | none =>
        .ok (items.map (·.name), rows.map fun row =>
          items.foldl (fun b item =>
            match row.lookup item.column with
            | some value => b.insert item.name value
            | none => b) ∅)

/-- `execute_procedure_call`. -/
def executeProcedureCall (pc : ProcedureCallStatement) : Exec σ ResultSet := do
  let (columns, rows) ← Stateful.read fun x => procedureRows A M x pc.procedure pc.arguments
  let (columns, bs) ← Stateful.read fun _ => yieldRows pc.procedure pc.yieldItems columns rows
  let bs ← matchSegmentsOf M pc.segments bs
  match pc.foreachClause with
  | some foreach =>
      bs.forM (executeForeachStmtRef A M foreach)
      return foreachResult
  | none =>
      Exec.resultOr M pc.returnClause bs
        ⟨columns, bs.map fun b => columns.map fun c => ((b.lookup c).map (·.toValue)).getD .null⟩

/-! ## Statements -/

/-- `execute_explain`; the statement is not executed. -/
def executeExplain (s : Statement) (x : Executor σ) : ResultSet where
  columns := ["plan"]
  rows := (P.plan s (GraphBackend.nodeCount x.graph) (GraphBackend.edgeCount x.graph)).map
    fun line => [.string line]

/-- The result of `PROFILE`: the plan with the number of rows. -/
def profileResult (s : Statement) (x : Executor σ) (rows : ℕ) : ResultSet where
  columns := ["profile"]
  rows := (P.profiled s (GraphBackend.nodeCount x.graph) (GraphBackend.edgeCount x.graph) rows
      (P.elapsed s)).map (fun line => [.string line]) ++
    [[.string ("Rows: " ++ toString rows ++ ", Time: " ++ toString (P.elapsed s) ++ " us")]]

/-- `execute`. -/
def execute : Statement → Exec σ ResultSet
  | .create patterns => executeCreate A M patterns
  | .createReturn patterns r => do
      let created ← executeCreateWithBindings A M patterns ∅
      Exec.result M r [created.bindings]
  | .match m => fun x => executeMatch M x m
  | .delete d => executeDelete M d
  | .union u => executeUnion M u
  | .matchCreate mc => executeMatchCreate A M mc
  | .matchSet ms => executeMatchSet M ms
  | .merge m => executeMerge A M m
  | .matchRemove mr => executeMatchRemove M mr
  | .unwind uw => executeUnwind A M uw
  | .foreach f => do
      executeForeachStmtRef A M f ∅
      return foreachResult
  | .matchForeach mf => executeMatchForeach A M mf
  | .createConstraint cc => executeCreateConstraint cc
  | .dropConstraint name => executeDropConstraint name
  | .showConstraints => Stateful.read fun x => .ok (executeShowConstraints x)
  | .createIndex label property => executeCreateIndex label property
  | .dropIndex label property => executeDropIndex label property
  | .showIndexes => Stateful.read fun x => .ok (executeShowIndexes x)
  | .createFulltextIndex cfi => executeCreateFulltextIndex A cfi
  | .dropFulltextIndex name => executeDropFulltextIndex name
  | .createUser cu =>
      pure (textResult ("User '" ++ cu.username ++ "' created with role '" ++ cu.role ++ "'"))
  | .dropUser username => pure (textResult ("User '" ++ username ++ "' dropped"))
  | .alterUser au => pure (textResult ("User '" ++ au.username ++ "' altered"))
  | .showUsers => pure (textResult "SHOW USERS requires server context")
  | .explain inner => Stateful.read fun x => .ok (executeExplain P inner x)
  | .profile inner => fun x =>
      -- The plan is made for the graph before the statement.
      match execute inner x with
      | (x', .ok rs) => (x', .ok (profileResult P inner x rs.rows.length))
      | (x', .error e) => (x', .error e)
  | .procedureCall pc => executeProcedureCall A M pc
  | .return r => Exec.result M r [∅]

/-- `execute_with_params`. -/
def executeWithParams (s : Statement) (params : HashMap String Value) (x : Executor σ) :
    Executor σ × Except ExecuteError ResultSet :=
  let (x, result) := execute A M P s { x with params := params }
  ({ x with params := ∅ }, result)

/-! ## Read-only statements -/

/-- The states differ in the range hints only. -/
def SameData (x x' : Executor σ) : Prop := ∃ hints, x' = { x with rangeHints := hints }

omit [GraphBackend σ] in
lemma SameData.refl (x : Executor σ) : SameData x x := ⟨x.rangeHints, rfl⟩

omit [GraphBackend σ] in
lemma SameData.trans {x y z : Executor σ} (hxy : SameData x y) (hyz : SameData y z) :
    SameData x z := by
  obtain ⟨hints, rfl⟩ := hxy
  obtain ⟨hints', rfl⟩ := hyz
  exact ⟨hints', rfl⟩

instance : Std.Refl (SameData (σ := σ)) := ⟨SameData.refl⟩

instance : IsTrans (Executor σ) SameData := ⟨fun _ _ _ => SameData.trans⟩

variable {A M P}

lemma within_executeMatch (m : MatchStatement) :
    Stateful.Within SameData (fun x => executeMatch M x m : Exec σ ResultSet) := by
  intro x
  have hsegments : SameData x (executeSegments M (earlyLimit M x m.returnClause) x m.segments [∅]).1 :=
    executeSegments_fst
  simp only [executeMatch]
  cases trySimpleCount M x m with
  | some rs => exact SameData.refl x
  | none =>
    rcases hrun : executeSegments M (earlyLimit M x m.returnClause) x m.segments [∅]
      with ⟨x', e | bs⟩
    · rw [hrun] at hsegments
      exact hsegments
    · rw [hrun] at hsegments
      exact hsegments

lemma within_matchSegmentsOf (segments : List QuerySegment) (bs : List Bindings) :
    Stateful.Within SameData (matchSegmentsOf M segments bs) :=
  Stateful.Within.foldlM (fun bs segment _ => executeQuerySegment_fst segment bs) segments bs

lemma within_executeUnion (u : UnionStatement) :
    Stateful.Within SameData (executeUnion M u) :=
  (Stateful.Within.mapList within_executeMatch u.queries).bind fun _ => Stateful.Within.read _

lemma within_resultOr (r : Option ReturnClause) (bs : List Bindings) (summary : ResultSet) :
    Stateful.Within SameData (Exec.resultOr M r bs summary) := by
  cases r with
  | none => exact Stateful.Within.pure summary
  | some r => exact Stateful.Within.read _

/-- A procedure call without `FOREACH` changes nothing. -/
lemma within_executeProcedureCall {pc : ProcedureCallStatement} (hpc : pc.foreachClause = none) :
    Stateful.Within SameData (executeProcedureCall A M pc) := by
  refine (Stateful.Within.read _).bind fun rows => ?_
  refine (Stateful.Within.read _).bind fun yielded => ?_
  refine (within_matchSegmentsOf pc.segments yielded.2).bind fun bs => ?_
  rw [hpc]
  exact within_resultOr pc.returnClause bs _

/-- The statements that `is_read_only` accepts change nothing, by induction over the nesting of
`PROFILE`. -/
lemma within_execute {s : Statement} (hs : isReadOnly s = true) :
    Stateful.Within SameData (execute A M P s) := by
  induction s with
  | «match» m => exact within_executeMatch m
  | union u => exact within_executeUnion u
  | procedureCall pc => exact within_executeProcedureCall (Option.isNone_iff_eq_none.mp hs)
  | showConstraints => exact Stateful.Within.read _
  | showIndexes => exact Stateful.Within.read _
  | showUsers => exact Stateful.Within.pure _
  | «return» r => exact Stateful.Within.read _
  | explain inner ih => exact Stateful.Within.read _
  | profile inner ih =>
    intro x
    have hinner : SameData x (execute A M P inner x).1 := ih hs x
    simp only [execute]
    rcases hrun : execute A M P inner x with ⟨x', e | rs⟩
    · rw [hrun] at hinner
      exact hinner
    · rw [hrun] at hinner
      exact hinner
  | _ => exact absurd hs (by simp [isReadOnly])

/-- A statement that `is_read_only` accepts leaves the graph, the constraints and the indexes
unchanged, whether it fails or not. -/
theorem executeWithParams_readOnly (A : TextAnalysis) (M : Semantics σ) (P : Planner) (s : Statement)
    (hs : isReadOnly s = true) (params : HashMap String Value) (x : Executor σ) :
    (executeWithParams A M P s params x).1.graph = x.graph ∧
      (executeWithParams A M P s params x).1.constraints = x.constraints ∧
      (executeWithParams A M P s params x).1.fulltext = x.fulltext ∧
      (executeWithParams A M P s params x).1.propertyIndex = x.propertyIndex := by
  obtain ⟨hints, hsame⟩ : SameData { x with params := params }
      (execute A M P s { x with params := params }).1 := within_execute hs _
  have hfst : (executeWithParams A M P s params x).1 =
      { (execute A M P s { x with params := params }).1 with params := ∅ } := rfl
  rw [hfst, hsame]
  exact ⟨rfl, rfl, rfl, rfl⟩

/-- No text is indexed or searched. -/
def plainAnalysis : TextAnalysis := ⟨fun text => [text], fun _ _ => []⟩

/-- Plans without text. -/
def plainPlanner : Planner := ⟨fun _ _ _ => [], fun _ _ _ _ _ => [], fun _ => 0⟩

/-- `PROFILE CALL db.labels()`. -/
def profileLabels : Statement := .profile (.procedureCall ⟨"db.labels", [], [], [], none, none⟩)

theorem executeWithParams_readOnly_profileLabels :
    isReadOnly profileLabels = true ∧
      (executeWithParams plainAnalysis plainSemantics plainPlanner profileLabels ∅
        (.plain friends)).1.graph = friends :=
  ⟨rfl, (executeWithParams_readOnly plainAnalysis plainSemantics plainPlanner profileLabels rfl ∅
    (.plain friends)).1⟩

end Maharit
