import MaharitDb.Query.Statement

/-!
# The steps a statement takes

A statement changes the state of the executor in steps of a few kinds: it creates a node or the edge of a
hop, applies an item of `SET` or `REMOVE`, deletes an edge or a node, and changes the schema.  What holds
of each of these steps holds of the whole statement, whether it succeeds or fails half way, for every
relation between states that is reflexive and transitive.
-/

namespace Maharit

open Stateful

/-! ## The updates in the text of a statement -/

/-- An update that a statement writes down. -/
inductive Update where
  | set (item : SetItem)
  | remove (item : RemoveItem)
  | constrain (statement : CreateConstraintStatement)

/-- The items of an optional `SET` clause. -/
def optionUpdates (items : Option (List SetItem)) : List Update := (items.getD []).map .set

def UpdateClause.updates : UpdateClause → List Update
  | .set items => items.map .set
  | .remove items => items.map .remove

mutual

/-- The updates in a clause of `FOREACH`. -/
def ForeachClause.updates : ForeachClause → List Update
  | .create _ => []
  | .set items => items.map .set
  | .remove items => items.map .remove
  | .delete _ => []
  | .merge _ => []
  | .foreach statement => ForeachStatement.updates statement

/-- The updates in the clauses of `FOREACH`. -/
def clausesUpdates : List ForeachClause → List Update
  | [] => []
  | clause :: clauses => ForeachClause.updates clause ++ clausesUpdates clauses

/-- The updates in `FOREACH`. -/
def ForeachStatement.updates : ForeachStatement → List Update
  | .mk _ _ clauses => clausesUpdates clauses

end

/-- The updates in a statement.  `EXPLAIN` does not execute what it explains. -/
def Statement.updates : Statement → List Update
  | .delete d => optionUpdates d.setClause
  | .matchSet ms => ms.setClause.map .set ++ ms.moreUpdates.flatMap UpdateClause.updates
  | .merge m => optionUpdates m.onCreateSet ++ optionUpdates m.onMatchSet
  | .matchRemove mr => mr.removeClause.map .remove ++ mr.moreUpdates.flatMap UpdateClause.updates
  | .unwind uw => optionUpdates uw.setClause
  | .foreach f => f.updates
  | .matchForeach mf => mf.foreachClause.updates
  | .createConstraint cc => [.constrain cc]
  | .profile inner => inner.updates
  | .procedureCall pc => (pc.foreachClause.map ForeachStatement.updates).getD []
  | _ => []

/-! ## The rules -/

variable {σ : Type} [GraphBackend σ]

/-- The round of `DELETE` for one node: its entries in the property indexes go with it. -/
def deleteIndexedNode (detach : Bool) (n : ℕ) (id : NodeId) : Exec σ ℕ := do
  if ← deleteNodeOf detach id then
    Stateful.modify fun x => { x with propertyIndex := x.propertyIndex.removeNode id }
    return n + 1
  else return n

/-- Every step is within the relation, as long as its update is allowed. -/
structure StepRules (A : TextAnalysis) (M : Semantics σ) (R : Executor σ → Executor σ → Prop)
    (Allowed : Update → Prop) : Prop where
  hints : ∀ x hints, R x { x with rangeHints := hints }
  fulltext : ∀ x fulltext, R x { x with fulltext := fulltext }
  createNode : ∀ p b, Within R (createNode A M p b)
  createHopEdge : ∀ p prev next b, Within R (createHopEdge M p prev next b)
  applySetItem : ∀ b item, Allowed (.set item) → Within R (applySetItem M b item)
  applyRemoveItem : ∀ b item, Allowed (.remove item) → Within R (applyRemoveItem b item)
  deleteEdge : ∀ id, Within R (Exec.onGraph fun g => GraphBackend.deleteEdge g id)
  deleteNodeOf : ∀ detach id, Within R (deleteNodeOf detach id)
  deleteIndexedNode : ∀ detach n id, Within R (deleteIndexedNode detach n id)
  createConstraint : ∀ cc, Allowed (.constrain cc) → Within R (executeCreateConstraint cc)
  dropConstraint : ∀ name, Within R (executeDropConstraint name)
  createIndex : ∀ label property, Within R (executeCreateIndex label property)
  dropIndex : ∀ label property, Within R (executeDropIndex label property)

/-! ### Reading -/

section

variable {R : Executor σ → Executor σ → Prop} [Std.Refl R]

omit [GraphBackend σ] in
lemma within_boundTo (b : Bindings) (name : String) : Within R (boundTo b name : Exec σ BindingValue) := by
  unfold boundTo
  split
  · exact Within.pure _
  · exact Within.fail _

variable [IsTrans (Executor σ) R]

omit [GraphBackend σ] in
lemma within_evaluateProperties (M : Semantics σ) (properties : List (String × Expression)) (b : Bindings) :
    Within R (evaluateProperties M properties b) :=
  Within.mapList (fun _ => (Within.read _).bind fun _ => Within.pure _) properties

/-- Deleting a node with its entries, where nothing is asked of the entries. -/
lemma within_deleteIndexedNode (hdelete : ∀ detach id, Within R (deleteNodeOf detach id))
    (hindex : ∀ x propertyIndex, R x { x with propertyIndex := propertyIndex }) (detach : Bool) (n : ℕ)
    (id : NodeId) : Within R (deleteIndexedNode detach n id) := by
  refine (hdelete detach id).bind fun deleted => ?_
  split
  · exact Within.bind (fun x => hindex x _) fun _ => Within.pure _
  · exact Within.pure _

end

namespace StepRules

variable {A : TextAnalysis} {M : Semantics σ} {R : Executor σ → Executor σ → Prop}
  {Allowed : Update → Prop}

section

variable (h : StepRules A M R Allowed)

include h

lemma sameData {x x' : Executor σ} (hsame : SameData x x') : R x x' := by
  obtain ⟨hints, rfl⟩ := hsame
  exact h.hints x hints

lemma of_sameData {α : Type} {m : Exec σ α} (hm : Within SameData m) : Within R m :=
  hm.mono fun _ _ => h.sameData

lemma matchSegmentsOf (segments : List QuerySegment) (bs : List Bindings) :
    Within R (matchSegmentsOf M segments bs) :=
  h.of_sameData (within_matchSegmentsOf segments bs)

lemma resultOr (r : Option ReturnClause) (bs : List Bindings) (summary : ResultSet) :
    Within R (Exec.resultOr M r bs summary) :=
  h.of_sameData (within_resultOr r bs summary)

variable [Std.Refl R] [IsTrans (Executor σ) R]

lemma matchRows (segments : List QuerySegment) (whereClause : Option Expression) :
    Within R (matchRows M segments whereClause) :=
  (h.matchSegmentsOf segments [∅]).bind fun _ => Within.read _

/-! ### `CREATE` -/

lemma createEndpoint (message : String) (p : NodePattern Expression) (c : Created) :
    Within R (createEndpoint A M message p c) := by
  unfold Maharit.createEndpoint
  split
  · split
    · exact Within.pure _
    · exact Within.fail _
  · exact (h.createNode p c.bindings).bind fun _ => Within.pure _

lemma createHops (segments : List (PathSegment Expression)) (prev : NodeId) (c : Created) :
    Within R (createHops A M segments prev c) := by
  induction segments generalizing prev c with
  | nil => exact Within.pure c
  | cons segment segments ih =>
    refine (h.createEndpoint _ segment.node c).bind fun endpoint => ?_
    exact (h.createHopEdge segment.edge prev endpoint.1 endpoint.2.bindings).bind fun _ => ih _ _

lemma createClausePattern (c : Created) (p : Pattern Expression) :
    Within R (createClausePattern A M c p) := by
  rcases p with p | p
  · simp only [Maharit.createClausePattern]
    split
    · exact Within.pure c
    · exact (h.createNode p c.bindings).bind fun _ => Within.pure _
  · exact (h.createEndpoint _ p.start c).bind fun start => h.createHops p.segments start.1 start.2

lemma executeCreateWithBindings (patterns : List (Pattern Expression)) (b : Bindings) :
    Within R (executeCreateWithBindings A M patterns b) :=
  Within.foldlM h.createClausePattern patterns _

lemma createForRows (patterns : List (Pattern Expression)) (bs : List Bindings) :
    Within R (createForRows A M patterns bs) :=
  (Within.mapList (h.executeCreateWithBindings patterns) bs).bind fun _ => Within.pure _

/-! ### `SET` and `REMOVE` -/

lemma applySetClause (items : List SetItem) (bs : List Bindings)
    (hitems : ∀ item ∈ items, Allowed (.set item)) : Within R (applySetClause M items bs) :=
  Within.forM (fun b => Within.forM_mem fun item hitem => h.applySetItem b item (hitems item hitem)) bs

lemma applySetOption (items : Option (List SetItem)) (bs : List Bindings)
    (hitems : ∀ u ∈ optionUpdates items, Allowed u) : Within R (applySetOption M items bs) := by
  rcases items with _ | items
  · exact Within.pure ()
  · exact h.applySetClause items bs fun item hitem => hitems _ (List.mem_map_of_mem hitem)

lemma applyRemoveClause (items : List RemoveItem) (b : Bindings)
    (hitems : ∀ item ∈ items, Allowed (.remove item)) :
    Within R (applyRemoveClause items b : Exec σ Unit) :=
  Within.forM_mem fun item hitem => h.applyRemoveItem b item (hitems item hitem)

lemma applyUpdateClauses (updates : List UpdateClause) (bs : List Bindings)
    (hupdates : ∀ u ∈ updates.flatMap UpdateClause.updates, Allowed u) :
    Within R (applyUpdateClauses M updates bs) := by
  refine Within.forM_mem fun update hupdate => ?_
  have hmem : ∀ u ∈ update.updates, Allowed u := fun u hu =>
    hupdates u (List.mem_flatMap.mpr ⟨update, hupdate, hu⟩)
  rcases update with items | items
  · exact h.applySetClause items bs fun item hitem => hmem _ (List.mem_map_of_mem hitem)
  · exact Within.forM (fun b => h.applyRemoveClause items b fun item hitem =>
      hmem _ (List.mem_map_of_mem hitem)) bs

/-! ### `DELETE` -/

lemma deleteEdges (ids : List EdgeId) : Within R (deleteEdges ids : Exec σ ℕ) :=
  Within.foldlM (fun _ id => (h.deleteEdge id).bind fun _ => Within.pure _) ids 0

lemma executeDelete (d : DeleteStatement) (hitems : ∀ u ∈ optionUpdates d.setClause, Allowed u) :
    Within R (executeDelete M d) := by
  refine (Within.read _).bind fun bs => (Within.read _).bind fun bs => ?_
  refine (h.applySetOption d.setClause bs hitems).bind fun _ => (h.deleteEdges _).bind fun edges => ?_
  exact (Within.foldlM (h.deleteIndexedNode d.deleteClause.detach) _ 0).bind fun nodes => Within.pure _

lemma applyDeleteClause (d : DeleteClause) (b : Bindings) : Within R (applyDeleteClause d b : Exec σ Unit) :=
  (h.deleteEdges _).bind fun _ =>
    Within.forM (fun id => (h.deleteNodeOf d.detach id).bind fun _ => Within.pure ()) _

/-! ### `MERGE` -/

lemma mergeHops (segments : List (PathSegment Expression)) (prev : NodeId) (c : Created) :
    Within R (mergeHops A M segments prev c) := by
  induction segments generalizing prev c with
  | nil => exact Within.pure c
  | cons segment segments ih =>
    refine (h.createEndpoint _ segment.node c).bind fun endpoint => ?_
    exact (h.createHopEdge segment.edge prev endpoint.1 endpoint.2.bindings).bind fun _ => ih _ _

lemma createPattern (c : Created) (p : Pattern Expression) : Within R (createPattern A M c p) := by
  rcases p with p | p
  · simp only [Maharit.createPattern]
    split
    · exact Within.pure c
    · exact (h.createNode p c.bindings).bind fun _ => Within.pure _
  · exact (h.createEndpoint _ p.start c).bind fun start => h.mergeHops p.segments start.1 start.2

lemma mergeRow (m : MergeStatement) (b : Bindings)
    (hitems : ∀ u ∈ optionUpdates m.onCreateSet ++ optionUpdates m.onMatchSet, Allowed u) :
    Within R (mergeRow A M m b) := by
  have hcreate : ∀ u ∈ optionUpdates m.onCreateSet, Allowed u := fun u hu =>
    hitems u (List.mem_append_left _ hu)
  have hmatch : ∀ u ∈ optionUpdates m.onMatchSet, Allowed u := fun u hu =>
    hitems u (List.mem_append_right _ hu)
  refine Within.bind (m := mergeMatches M m.patterns b) (Within.read _) fun found => ?_
  split
  · refine (Within.foldlM h.createPattern _ _).bind fun created => ?_
    exact (h.applySetOption m.onCreateSet _ hcreate).bind fun _ => Within.pure _
  · exact (h.applySetOption m.onMatchSet found hmatch).bind fun _ => Within.pure _

lemma executeMerge (m : MergeStatement)
    (hitems : ∀ u ∈ optionUpdates m.onCreateSet ++ optionUpdates m.onMatchSet, Allowed u) :
    Within R (executeMerge A M m) :=
  (Within.read _).bind fun bs => (Within.mapList (fun b => h.mergeRow m b hitems) bs).bind fun _ =>
    h.resultOr m.returnClause _ _

/-! ### `UNWIND` and `FOREACH` -/

lemma executeUnwind (uw : UnwindStatement) (hitems : ∀ u ∈ optionUpdates uw.setClause, Allowed u) :
    Within R (executeUnwind A M uw) := by
  refine Within.bind (m := evaluateListOf M "UNWIND" uw.expression ∅) (Within.read _) fun items => ?_
  simp only
  split
  · refine (h.createForRows _ _).bind fun created => ?_
    exact (h.applySetOption uw.setClause _ hitems).bind fun _ => h.resultOr uw.returnClause _ _
  · exact h.resultOr uw.returnClause _ _

end

variable [Std.Refl R] [IsTrans (Executor σ) R]

mutual

/-- The clauses of `FOREACH`, by induction over their nesting. -/
lemma executeForeachClause (h : StepRules A M R Allowed) : ∀ (clause : ForeachClause),
    (∀ u ∈ clause.updates, Allowed u) → ∀ b, Within R (executeForeachClause A M clause b)
  | .create patterns, _, b => (h.executeCreateWithBindings patterns b).bind fun _ => Within.pure ()
  | .set items, hu, b => h.applySetClause items [b] fun _ hitem => hu _ (List.mem_map_of_mem hitem)
  | .remove items, hu, b => h.applyRemoveClause items b fun _ hitem => hu _ (List.mem_map_of_mem hitem)
  | .delete clause, _, b => h.applyDeleteClause clause b
  | .merge patterns, _, b => by
      refine Within.bind (m := mergeMatches M patterns b) (Within.read _) fun found => ?_
      split
      · exact (Within.foldlM h.createPattern patterns _).bind fun _ => Within.pure ()
      · exact Within.pure ()
  | .foreach statement, hu, b => executeForeachStmtRef h statement hu b

lemma executeForeachClauses (h : StepRules A M R Allowed) : ∀ (clauses : List ForeachClause),
    (∀ u ∈ clausesUpdates clauses, Allowed u) → ∀ b, Within R (executeForeachClauses A M clauses b)
  | [], _, _ => Within.pure ()
  | clause :: clauses, hu, b =>
      (executeForeachClause h clause (fun u hmem => hu u (List.mem_append_left _ hmem)) b).bind fun _ =>
        executeForeachClauses h clauses (fun u hmem => hu u (List.mem_append_right _ hmem)) b

lemma executeForeachStmtRef (h : StepRules A M R Allowed) : ∀ (statement : ForeachStatement),
    (∀ u ∈ statement.updates, Allowed u) → ∀ b, Within R (executeForeachStmtRef A M statement b)
  | .mk var list clauses, hu, b => by
      refine Within.bind (m := evaluateListOf M "FOREACH" list b) (Within.read _) fun items => ?_
      exact Within.forM (fun item => executeForeachClauses h clauses hu _) items

end

/-! ### Statements -/

lemma executeProcedureCall (h : StepRules A M R Allowed) (pc : ProcedureCallStatement)
    (hu : ∀ u ∈ (pc.foreachClause.map ForeachStatement.updates).getD [], Allowed u) :
    Within R (executeProcedureCall A M pc) := by
  unfold Maharit.executeProcedureCall
  refine (Within.read _).bind fun rows => (Within.read _).bind fun yielded => ?_
  refine (h.matchSegmentsOf pc.segments yielded.2).bind fun bs => ?_
  rcases hforeach : pc.foreachClause with _ | statement
  · exact h.resultOr pc.returnClause bs _
  · rw [hforeach] at hu
    exact (Within.forM (h.executeForeachStmtRef statement hu) bs).bind fun _ => Within.pure _

/-- A statement whose updates are allowed stays within the relation, by induction over the nesting of
`PROFILE`. -/
theorem execute (h : StepRules A M R Allowed) (P : Planner) (s : Statement)
    (hu : ∀ u ∈ s.updates, Allowed u) : Within R (execute A M P s) := by
  induction s with
  | create patterns => exact (h.executeCreateWithBindings patterns ∅).bind fun _ => Within.pure _
  | createReturn patterns r => exact (h.executeCreateWithBindings patterns ∅).bind fun _ => Within.read _
  | «match» m => exact h.of_sameData (within_executeMatch m)
  | delete d => exact h.executeDelete d hu
  | union u => exact h.of_sameData (within_executeUnion u)
  | matchCreate mc =>
    refine (h.matchRows mc.segments mc.whereClause).bind fun bs => ?_
    exact (h.createForRows mc.createClause bs).bind fun _ => h.resultOr mc.returnClause _ _
  | matchSet ms =>
    have hset : ∀ item ∈ ms.setClause, Allowed (.set item) := fun item hitem =>
      hu _ (List.mem_append_left _ (List.mem_map_of_mem hitem))
    have hmore : ∀ u ∈ ms.moreUpdates.flatMap UpdateClause.updates, Allowed u := fun u hmem =>
      hu u (List.mem_append_right _ hmem)
    refine (h.matchRows ms.segments ms.whereClause).bind fun bs => ?_
    refine (h.applySetClause ms.setClause bs hset).bind fun _ => ?_
    exact (h.applyUpdateClauses ms.moreUpdates bs hmore).bind fun _ => h.resultOr ms.returnClause _ _
  | merge m => exact h.executeMerge m hu
  | matchRemove mr =>
    have hremove : ∀ item ∈ mr.removeClause, Allowed (.remove item) := fun item hitem =>
      hu _ (List.mem_append_left _ (List.mem_map_of_mem hitem))
    have hmore : ∀ u ∈ mr.moreUpdates.flatMap UpdateClause.updates, Allowed u := fun u hmem =>
      hu u (List.mem_append_right _ hmem)
    refine (h.matchRows mr.segments mr.whereClause).bind fun bs => ?_
    refine (Within.forM (fun b => h.applyRemoveClause mr.removeClause b hremove) bs).bind fun _ => ?_
    exact (h.applyUpdateClauses mr.moreUpdates bs hmore).bind fun _ => h.resultOr mr.returnClause _ _
  | unwind uw => exact h.executeUnwind uw hu
  | foreach f => exact (h.executeForeachStmtRef f hu ∅).bind fun _ => Within.pure _
  | matchForeach mf =>
    refine (h.matchSegmentsOf mf.segments [∅]).bind fun bs => ?_
    exact (Within.forM (h.executeForeachStmtRef mf.foreachClause hu) bs).bind fun _ => Within.pure _
  | createConstraint cc => exact h.createConstraint cc (hu _ (List.mem_singleton_self _))
  | dropConstraint name => exact h.dropConstraint name
  | createIndex label property => exact h.createIndex label property
  | dropIndex label property => exact h.dropIndex label property
  | createFulltextIndex cfi =>
    intro x
    simp only [Maharit.execute, executeCreateFulltextIndex]
    rcases x.fulltext.createIndex cfi.name cfi.label cfi.properties with e | fulltext
    · exact refl_of R x
    · exact h.fulltext x _
  | dropFulltextIndex name =>
    intro x
    simp only [Maharit.execute, executeDropFulltextIndex]
    rcases x.fulltext.dropIndex name with e | fulltext
    · exact refl_of R x
    · exact h.fulltext x _
  | profile inner ih =>
    intro x
    have hinner : R x (Maharit.execute A M P inner x).1 := ih hu x
    simp only [Maharit.execute]
    rcases hrun : Maharit.execute A M P inner x with ⟨x', e | rs⟩
    · rw [hrun] at hinner
      exact hinner
    · rw [hrun] at hinner
      exact hinner
  | procedureCall pc => exact h.executeProcedureCall pc hu
  | _ => exact fun x => refl_of R x

end StepRules

end Maharit
