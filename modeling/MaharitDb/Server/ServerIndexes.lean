import MaharitDb.Query.Matching
import MaharitDb.Server.IndexRuns
import MaharitDb.Server.ServerIntegrity

/-!
# The property indexes of the server

The server shares its property indexes between all queries.  Statements keep them as they write; a rollback
writes to the graph behind their back, and brings the nodes it touched back in line afterwards.  Whatever the
clients do, an index then lists every node of its label, and `MATCH` tries every node that a lookup in an index
stands for.
-/

namespace Maharit

open GraphBackend PropertyIndex

/-! ## Rollbacks -/

namespace ConcurrentGraph

/-- Putting the properties of a node back leaves the other nodes. -/
lemma lookup_foldl_setNodeProperty (g : ConcurrentGraph) {id m : NodeId} (hm : m ≠ id)
    (entries : List (Sigma fun _ : String => PropertyValue)) :
    (entries.foldl (fun g p => setNodeProperty g id p.1 p.2) g).nodes.lookup m = g.nodes.lookup m := by
  induction entries generalizing g with
  | nil => rfl
  | cons p entries ih =>
    refine (ih _).trans ?_
    exact (nodeLaws.setProperty g id p.1 p.2 m).trans (if_neg hm)

/-- Taking a record back changes at most the node that it reports as touched. -/
lemma lookup_undo (g : ConcurrentGraph) {u : UndoRecord} {m : NodeId} (hm : u.touched ≠ some m) :
    (u.undo g).nodes.lookup m = g.nodes.lookup m := by
  have hne : ∀ {id}, u.touched = some id → m ≠ id := by
    rintro id hid rfl
    exact hm hid
  rcases u with id | ⟨id, labels, properties⟩ | ⟨id, key, _ | value⟩ | id | ⟨id, fromNode, toNode, label, properties⟩ |
    ⟨id, key, _ | value⟩ | ⟨id, label⟩ | ⟨id, label⟩
  · exact (nodeLaws.delete g id m).trans (if_neg (hne rfl))
  · refine (lookup_foldl_setNodeProperty _ (hne rfl) properties.entries).trans ?_
    change ((g.createNodeWithIdAndLabels id labels).1).nodes.lookup m = g.nodes.lookup m
    exact (HashMap.lookup_insert_ite _ _ _ _).trans (if_neg (hne rfl))
  · exact (nodeLaws.removeProperty g id key m).trans (if_neg (hne rfl))
  · exact (nodeLaws.setProperty g id key value m).trans (if_neg (hne rfl))
  · exact congrFun (nodeLaws.deleteEdge g id) m
  · have hrestored : (restoreEdge g id fromNode toNode label).1.nodes = g.nodes := by
      change (g.createEdgeWithId id fromNode toNode label).1.nodes = g.nodes
      unfold createEdgeWithId
      split
      · rfl
      · split <;> rfl
    have hproperties : ∀ (entries : List (Sigma fun _ : String => PropertyValue)) (g : ConcurrentGraph),
        (entries.foldl (fun g p => setEdgeProperty g id p.1 p.2) g).nodes = g.nodes := by
      intro entries
      induction entries with
      | nil => exact fun _ => rfl
      | cons p entries ih => exact fun g => (ih _).trans rfl
    refine congrArg (AList.lookup m) (Eq.trans ?_ hrestored)
    rcases hres : restoreEdge g id fromNode toNode label with ⟨g', e | _⟩
    · simp only [UndoRecord.undo, hres]
    · simp only [UndoRecord.undo, hres]
      exact hproperties properties.entries g'
  · exact congrFun (nodeLaws.removeEdgeProperty g id key) m
  · exact congrFun (nodeLaws.setEdgeProperty g id key value) m
  · exact (nodeLaws.removeLabel g id label m).trans (if_neg (hne rfl))
  · exact (nodeLaws.addLabel g id label m).trans (if_neg (hne rfl))

/-- Taking records back changes at most the nodes that they report as touched. -/
lemma lookup_replay_undo (g : ConcurrentGraph) {log : List UndoRecord} {m : NodeId}
    (hm : ∀ u ∈ log, u.touched ≠ some m) :
    (UndoLog.replay UndoRecord.undo g log).nodes.lookup m = g.nodes.lookup m := by
  induction log using List.reverseRecOn generalizing g with
  | nil => rfl
  | append_singleton log u ih =>
    rw [UndoLog.replay_append, UndoLog.replay_singleton]
    refine (ih _ fun u' hu' => hm u' (List.mem_append_left _ hu')).trans (lookup_undo g (hm u ?_))
    exact List.mem_append_right _ (List.mem_singleton_self u)

end ConcurrentGraph

namespace SharedManagers

variable {ε : Type} {E : ServerEnv ε} {g : ConcurrentGraph}

/-- Reindexing a node takes its entries out and enters what it has now. -/
lemma describes_reindex (g : ConcurrentGraph) (m : SharedManagers) (id : NodeId) {triples : Set Triple}
    (h : m.propertyIndex.Describes triples) :
    ∃ triples', (m.reindex E g id).propertyIndex.Describes triples' ∧
      (m.reindex E g id).propertyIndex.definitions = m.propertyIndex.definitions ∧
      (∀ t ∈ triples, t.1 ≠ id → t ∈ triples') ∧
      ∀ n property value, g.nodes.lookup id = some n →
        m.propertyIndex.hasIndex n.primaryLabel property = true → n.getProperty property = some value →
          (id, property, value) ∈ triples' := by
  have hremoved : (m.propertyIndex.removeNode id).Describes {t ∈ triples | t.1 ≠ id} := h.removeNode id
  unfold reindex
  rcases hn : g.nodes.lookup id with _ | n
  · exact ⟨_, hremoved, definitions_removeNode .., fun t ht hne => ⟨ht, hne⟩, by simp⟩
  · let entry : (Sigma fun _ : String => PropertyValue) → Option Triple := fun p =>
      if m.propertyIndex.hasIndex n.primaryLabel p.1 then some (id, p.1, p.2) else none
    have hstep : ∀ (ix : PropertyIndex) (p : Sigma fun _ : String => PropertyValue),
        ix.definitions = m.propertyIndex.definitions →
        (entry p = none → (if ix.hasIndex n.primaryLabel p.1 then ix.indexProperty id p.1 p.2 else ix) = ix) ∧
          ∀ t, entry p = some t → (if ix.hasIndex n.primaryLabel p.1 then ix.indexProperty id p.1 p.2 else ix) =
            ix.indexProperty t.1 t.2.1 t.2.2 := by
      intro ix p hix
      have hsame : ix.hasIndex n.primaryLabel p.1 = m.propertyIndex.hasIndex n.primaryLabel p.1 := by
        unfold hasIndex
        rw [hix]
      rw [hsame]
      by_cases hindex : m.propertyIndex.hasIndex n.primaryLabel p.1 = true
      · simp [entry, hindex]
      · simp [entry, hindex]
    obtain ⟨triples', hdescribes, hdefinitions, hsub, hmem⟩ :=
      hremoved.foldl_index entry hstep n.properties.entries (definitions_removeNode ..)
    refine ⟨triples', hdescribes, hdefinitions, fun t ht hne => hsub ⟨ht, hne⟩, fun n' property value hn' => ?_⟩
    obtain rfl := Option.some.inj hn'
    intro hindex hvalue
    exact hmem ⟨property, value⟩ (AList.mem_lookup_iff.mp hvalue) _ (if_pos hindex)

/-- Reindexing the nodes that were touched brings an index up to date that was so for the others. -/
lemma follows_foldl_reindex {d : IndexDefinition} (hkeyed : ∀ id n, g.nodes.lookup id = some n → n.id = id)
    (touched : List NodeId) (m : SharedManagers) {triples : Set Triple} (h : m.propertyIndex.Describes triples)
    (hcovers : m.propertyIndex.definitions.lookup d.key = some d → ∀ id n value, id ∉ touched →
      g.nodes.lookup id = some n → n.labels.head? = some d.label → n.getProperty d.property = some value →
        (id, d.property, value) ∈ triples) :
    d.Follows g.nodes.lookup (touched.foldl (SharedManagers.reindex E g) m).propertyIndex := by
  induction touched generalizing m triples with
  | nil => exact ⟨hkeyed, triples, h, fun hd id n value => hcovers hd id n value List.not_mem_nil⟩
  | cons id touched ih =>
    obtain ⟨triples', hdescribes, hdefinitions, hkept, hentered⟩ := describes_reindex (E := E) g m id h
    refine ih (m.reindex E g id) hdescribes fun hd id' n value hnot hn hlabel hvalue => ?_
    rw [hdefinitions] at hd
    by_cases hid : id' = id
    · subst hid
      refine hentered n d.property value hn ?_ hvalue
      rw [Executor.primaryLabel_of_head hlabel]
      exact hasIndex_of_lookup hd
    · exact hkept _ (hcovers hd id' n value (List.not_mem_cons_of_ne_of_not_mem hid hnot) hn hlabel hvalue) hid

end SharedManagers

/-! ## Requests -/

namespace Server

variable {ε : Type} {E : ServerEnv ε} {d : IndexDefinition} {s s' : Server}

/-- What the parser yields moves no other node under the label. -/
def ParsesNoneTo (E : ServerEnv ε) (label : String) : Prop :=
  ∀ query stmt, E.parse query = .ok stmt → ∀ u ∈ stmt.updates, Update.MovesNoneTo label u

/-- The index is up to date, and so it stays under the statements in the cache. -/
structure Indexed (d : IndexDefinition) (s : Server) : Prop where
  follows : d.Follows s.graph.nodes.lookup s.managers.propertyIndex
  cached : ∀ key stmt, s.astCache.statement? key = some stmt → ∀ u ∈ stmt.updates, Update.MovesNoneTo d.label u

lemma Indexed.of_same (h : s.Indexed d) (hgraph : s'.graph = s.graph) (hmanagers : s'.managers = s.managers)
    (hcache : s'.astCache = s.astCache) : s'.Indexed d := by
  refine ⟨?_, ?_⟩
  · rw [hgraph, hmanagers]
    exact h.follows
  · rw [hcache]
    exact h.cached

lemma indexed_getOrParse (hE : ParsesNoneTo E d.label) (h : s.Indexed d) (query : String) :
    (s.getOrParse E query).1.Indexed d ∧
      ∀ stmt, (s.getOrParse E query).2 = .ok stmt → ∀ u ∈ stmt.updates, Update.MovesNoneTo d.label u := by
  rcases hcached : s.astCache.statement? (normalizeQuery query) with _ | stmt
  · obtain ⟨hresult, hnew⟩ := @AstCache.getOrParse_of_miss _ E.parse _ _ hcached
    refine ⟨⟨h.follows, fun key stmt hstmt => ?_⟩, fun stmt hstmt => hE query stmt (hresult.symm.trans hstmt)⟩
    rcases hnew key stmt hstmt with hold | ⟨-, hparse⟩
    · exact h.cached key stmt hold
    · exact hE query stmt hparse
  · obtain ⟨hresult, hkept⟩ := @AstCache.getOrParse_of_hit _ E.parse _ _ _ hcached
    refine ⟨⟨h.follows, fun key stmt hstmt => h.cached key stmt ((hkept key).symm.trans hstmt)⟩, fun stmt' hstmt => ?_⟩
    obtain rfl := Except.ok.inj (hresult.symm.trans hstmt)
    exact h.cached _ _ hcached

/-- A statement, in a transaction or not. -/
lemma indexed_withOutcome {stmt : Statement} (hstmt : ∀ u ∈ stmt.updates, Update.MovesNoneTo d.label u)
    (h : s.Indexed d) (captureUndo : Bool) :
    (s.withOutcome (s.managers.run E s.graph stmt (!isReadOnly stmt) captureUndo)).Indexed d := by
  by_cases hread : isReadOnly stmt = true
  · obtain ⟨hgraph, hmanagers⟩ := run_of_readOnly (E := E) hread s.managers s.graph captureUndo
    exact h.of_same hgraph hmanagers rfl
  · rw [Bool.not_eq_true] at hread
    rw [hread, Bool.not_false]
    let recorder := if captureUndo then (RecordingGraph.new E.J s.graph E.replication).withUndo
      else RecordingGraph.new E.J s.graph E.replication
    have hgraph : recorder.graph = s.graph := by
      simp only [recorder]
      split <;> rfl
    have hrules := Executor.stepRules_keepsFollowed (d := d) (M := E.writes) RecordingGraph.nodeLaws E.analysis
    have hkept := hrules.execute E.planner stmt hstmt
      ⟨recorder, s.managers.constraints, s.managers.fulltext, s.managers.propertyIndex, [], ∅⟩
    refine ⟨hkept ?_, h.cached⟩
    change d.Follows recorder.graph.nodes.lookup s.managers.propertyIndex
    rw [hgraph]
    exact h.follows

lemma indexed_executeQuery (hE : ParsesNoneTo E d.label) (h : s.Indexed d) (query : String) :
    (s.executeQuery E query).1.Indexed d := by
  obtain ⟨hparsed, hstmt⟩ := indexed_getOrParse hE h query
  unfold executeQuery
  rcases hresult : s.getOrParse E query with ⟨s', e | stmt⟩
  all_goals rw [hresult] at hparsed hstmt
  · exact hparsed
  · exact indexed_withOutcome (hstmt stmt rfl) hparsed false

lemma indexed_executeQueryWithTx (hE : ParsesNoneTo E d.label) (h : s.Indexed d) (query : String) (tx : TxId) :
    (s.executeQueryWithTx E query tx).1.Indexed d := by
  obtain ⟨hparsed, hstmt⟩ := indexed_getOrParse hE h query
  unfold executeQueryWithTx
  rcases hresult : s.getOrParse E query with ⟨s', e | stmt⟩
  all_goals rw [hresult] at hparsed hstmt
  · exact hparsed
  · dsimp only
    split
    · exact indexed_executeQuery hE hparsed query
    · rename_i hread
      rw [Bool.not_eq_true] at hread
      split
      · exact hparsed
      · have hrun := indexed_withOutcome (E := E) (hstmt stmt rfl) hparsed true
        rw [hread, Bool.not_false] at hrun
        exact hrun.of_same rfl rfl rfl

lemma indexed_executeStreamingQuery (hE : ParsesNoneTo E d.label) (h : s.Indexed d) (query : String)
    (chunkSize : ℕ) : (s.executeStreamingQuery E query chunkSize).1.Indexed d := by
  obtain ⟨hparsed, hstmt⟩ := indexed_getOrParse hE h query
  unfold executeStreamingQuery
  rcases hresult : s.getOrParse E query with ⟨s', e | stmt⟩
  all_goals rw [hresult] at hparsed hstmt
  · exact hparsed
  · have hrun := indexed_withOutcome (E := E) (hstmt stmt rfl) hparsed false
    dsimp only
    split
    · exact hrun
    · exact hrun.of_same rfl rfl rfl

/-- A rollback: what it does not touch keeps its entries, and the rest is reindexed. -/
lemma indexed_rollback (h : s.Indexed d) (tx : TxId) (hkeyed : ∀ id n,
    (s.rollback E tx).1.graph.nodes.lookup id = some n → n.id = id) : (s.rollback E tx).1.Indexed d := by
  unfold rollback TransactionManager.rollbackBackend at hkeyed ⊢
  rcases s.txManager.getActive_cases tx with ⟨e, hactive⟩ | ⟨t, -, -, hactive⟩
  · rw [hactive]
    exact h
  · rw [hactive] at hkeyed ⊢
    simp only [bind, Except.bind, pure, Except.pure] at hkeyed ⊢
    refine ⟨?_, h.cached⟩
    obtain ⟨triples, hdescribes, hcovers⟩ := h.follows.entries
    refine SharedManagers.follows_foldl_reindex hkeyed _ s.managers hdescribes fun hd id n value hnot hn => ?_
    have hgraph : (t.undoLog.reverse.foldl UndoRecord.undo
        (RecordingGraph.new E.J s.graph E.replication)).graph =
          UndoLog.replay UndoRecord.undo s.graph t.undoLog := RecordingGraph.foldl_undo_graph _ _
    rw [hgraph, ConcurrentGraph.lookup_replay_undo] at hn
    · exact hcovers hd id n value hn
    · intro u hu htouched
      refine hnot (List.mem_dedup.mpr (List.mem_mergeSort.mpr (List.mem_filterMap.mpr ⟨u, ?_, htouched⟩)))
      exact List.mem_reverse.mpr hu

lemma indexed_handleQuery (hE : ParsesNoneTo E d.label) (h : s.Indexed d) (draw : Draw) (role : Role)
    (query : String) (txId : Option TxId) : (s.handleQuery E draw role query txId).1.Indexed d := by
  obtain ⟨auth, hfst, -⟩ := tryHandleUserManagement_fst (E := E) s draw role query
  have hparsed : (s.tryHandleUserManagement E draw role query).1.Indexed d := by
    rw [hfst]
    exact (indexed_getOrParse hE h query).1.of_same rfl rfl rfl
  unfold handleQuery
  rcases hhandle : s.tryHandleUserManagement E draw role query with ⟨s', _ | response⟩
  all_goals rw [hhandle] at hparsed
  · dsimp only
    split
    · exact hparsed
    · rcases txId with _ | tx
      · exact indexed_executeQuery hE hparsed query
      · exact indexed_executeQueryWithTx hE hparsed query tx
  · exact hparsed

lemma indexed_handleAs (hE : ParsesNoneTo E d.label) (h : s.Indexed d) (draw : Draw) (role : Role) (r : Request)
    (hkeyed : ∀ id n, (s.handleAs E draw role r).1.graph.nodes.lookup id = some n → n.id = id) :
    (s.handleAs E draw role r).1.Indexed d := by
  rcases r with ⟨username, password⟩ | ⟨query, txId, token⟩ | ⟨query, txId, chunkSize, token⟩ | - | - | - |
    ⟨readOnly, token⟩ | ⟨tx, token⟩ | ⟨tx, token⟩
  case query => exact indexed_handleQuery hE h draw role query txId
  case streamQuery =>
    simp only [handleAs]
    split
    · exact h
    · exact indexed_executeStreamingQuery hE h query chunkSize
  case beginTransaction =>
    simp only [handleAs]
    split
    · exact h
    · exact h.of_same rfl rfl rfl
  case commit =>
    simp only [handleAs]
    split
    · exact h.of_same rfl rfl rfl
    · exact h
  case rollback => exact indexed_rollback h tx hkeyed
  all_goals exact h

/-- One request. -/
lemma indexed_step (hE : ParsesNoneTo E d.label) (h : s.Indexed d) (r : Request × Draw)
    (hkeyed : ∀ id n, (s.step E r).graph.nodes.lookup id = some n → n.id = id) : (s.step E r).Indexed d := by
  rcases r with ⟨r, draw⟩
  rcases htoken : Request.sessionToken r with _ | token
  · rcases r with ⟨username, password⟩ | _ | _ | _ | _ | _ | _ | _ | _
    case login =>
      change (s.login E draw username password).1.Indexed d
      unfold login
      split <;> exact h.of_same rfl rfl rfl
    case ping | stats | disconnect => exact h
    all_goals cases htoken
  · obtain ⟨auth, ⟨message, hrefused⟩ | ⟨role, hhandled⟩⟩ := handleRequest_cases (E := E) s htoken draw
    · rw [step, hrefused]
      exact h.of_same rfl rfl rfl
    · rw [step, hhandled] at hkeyed ⊢
      have hsession : ({ s with auth := auth } : Server).Indexed d := h.of_same rfl rfl rfl
      exact indexed_handleAs hE hsession draw role r hkeyed

/-- Any number of requests. -/
lemma indexed_run (hE : Replicates E) (hlabel : ParsesNoneTo E d.label) (hs : s.Sound) (h : s.Indexed d)
    (requests : List (Request × Draw)) (hlog : (requests.foldl (step E) s).wal.length < 2 ^ 64) :
    (requests.foldl (step E) s).Indexed d := by
  induction requests generalizing s with
  | nil => exact h
  | cons r requests ih =>
    have hlt : (s.step E r).wal.length < 2 ^ 64 :=
      (advances_run hE (s.step E r) requests).log.length_le.trans_lt hlog
    have hstep : (s.step E r).Sound := (advances_step hE s r).sound hlt hs
    exact ih hstep (indexed_step hlabel h r hstep.intact.consistent.node_id) hlog

end Server

/-! ## Queries -/

/-- `MATCH` tries a node that has what the pattern writes down, whichever index the matcher takes. -/
lemma mem_nodeCandidates {x : Executor ConcurrentGraph} (hx : x.graph.Consistent) (hhints : x.rangeHints = [])
    {p : NodePattern Expression} {label : String} (hlabel : p.labels.head? = some label)
    (hindexes : ∀ property, x.propertyIndex.hasIndex label property = true →
      x.propertyIndex.definitions.lookup (IndexDefinition.key ⟨label, property⟩) = some ⟨label, property⟩ ∧
        IndexDefinition.Follows ⟨label, property⟩ x.graph.nodes.lookup x.propertyIndex)
    {id : NodeId} {n : Node} (hn : x.graph.nodes.lookup id = some n) (hfirst : n.labels.head? = some label)
    (hvalues : ∀ property lit, (property, Expression.literal lit) ∈ p.properties →
      n.getProperty property = some (.ofLiteral lit)) : id ∈ nodeCandidates x p := by
  have hscan : id ∈ scanCandidates x p := by
    have hrange : rangeIndexCandidates x p = none := by
      unfold rangeIndexCandidates
      rw [hhints]
      split <;> rfl
    rw [scanCandidates, hrange, Option.getD_none, hlabel]
    exact (HashSet.mem_toList _ _).mpr ((hx.labelIndex label id).mpr ⟨n, hn, List.mem_of_mem_head? hfirst⟩)
  unfold nodeCandidates
  rcases hlookup : indexLookup x p with _ | ids
  · exact hscan
  · rw [Option.getD_some]
    unfold indexLookup at hlookup
    rw [hlabel] at hlookup
    obtain ⟨⟨property, e⟩, hmem, hfound⟩ := List.exists_of_findSome?_eq_some hlookup
    dsimp only at hfound
    split at hfound
    · split at hfound
      · rename_i lit hindex
        obtain ⟨hlisted, hfollows⟩ := hindexes property hindex
        obtain ⟨triples, hdescribes, hcovers⟩ := hfollows.entries
        obtain rfl := Option.some.inj hfound
        exact (hdescribes.found (hcovers hlisted id n _ hn hfirst (hvalues property lit hmem))).1
      · cases hfound
    · cases hfound

/-- The statement `MATCH (n:Person) DETACH DELETE n`. -/
def deletePersons : Statement :=
  .delete ⟨[.node ⟨some "n", ["Person"], []⟩], none, none, ⟨true, ["n"]⟩⟩

/-- A server that parses three queries on persons. -/
def personEnv : ServerEnv Unit :=
  { replicatingEnv with
    parse := fun query =>
      if query = "index" then .ok (.createIndex "Person" "name")
      else if query = "create" then .ok (createNamed "a")
      else if query = "delete" then .ok deletePersons
      else .error () }

lemma parse_personEnv {query : String} {stmt : Statement} (h : personEnv.parse query = .ok stmt) :
    stmt.NamesLabels ∧ stmt.updates = [] := by
  simp only [personEnv] at h
  split at h
  · obtain rfl := Except.ok.inj h
    exact ⟨by simp [Statement.NamesLabels, Statement.updates], rfl⟩
  · split at h
    · obtain rfl := Except.ok.inj h
      exact ⟨by simp [Statement.NamesLabels, createNamed, Statement.updates], rfl⟩
    · split at h
      · obtain rfl := Except.ok.inj h
        exact ⟨by simp [Statement.NamesLabels, deletePersons, Statement.updates, optionUpdates], rfl⟩
      · cases h

/-- A node with an indexed name is deleted in a transaction, and the transaction is rolled back. -/
def indexedRequests : List (Request × Draw) :=
  [(.query "index" none none, sampleDraw ""), (.query "create" none none, sampleDraw ""),
    (.beginTransaction false none, sampleDraw ""), (.query "delete" (some 1) none, sampleDraw ""),
    (.rollback 1 none, sampleDraw "")]

end Maharit
