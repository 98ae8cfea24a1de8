import MaharitDb.Core.GraphContent
import MaharitDb.Lib.UndoLog
import MaharitDb.Storage.LockTable

/-!
# The operations of the transaction manager on a graph

`create_node`, `delete_node` and `set_property` change a `Graph` and record how to take the change
back; `rollback` takes the records back (`maharit-storage/src/transaction.rs`).

A deletion records the node and not the edges that go with it.  The records of a transaction invert
it when every node it deletes has no edge left (`TransactionCall.Detached`); otherwise an edge is
lost, for nothing in a transaction makes one (`rollback_exact_iff`).
-/

namespace Maharit

open UndoLog GuardedRun

namespace TransactionManager

/-- `acquire_lock`: `tables` are the lock tables that the call finds each time it has slept, and it
times out after the last one. -/
def acquireLock (tm : TransactionManager) (tx : TxId) (resource : String) (mode : LockMode) :
    List (HashMap String LockInfo) → TransactionManager × Except TransactionError Unit
  | [] =>
      match tm.acquireIteration tx resource mode with
      | (tm, some r) => (tm, r)
      | (tm, none) => tm.acquireTimeout tx resource
  | locks :: tables =>
      match tm.acquireIteration tx resource mode with
      | (tm, some r) => (tm, r)
      | (tm, none) => acquireLock { tm with locks := locks } tx resource mode tables

/-- A transaction that may write: it is not read-only, and it is still running. -/
def getWritable (tm : TransactionManager) (tx : TxId) : Except TransactionError Transaction := do
  let t ← tm.getTransaction tx
  if t.readOnly then throw (.readOnly tx)
  if t.state ≠ .active then throw (.alreadyFinished tx)
  return t

/-- Append an undo record to a transaction. -/
def pushUndo (tm : TransactionManager) (tx : TxId) (t : Transaction) (record : UndoRecord) :
    TransactionManager :=
  { tm with transactions := tm.transactions.insert tx { t with undoLog := t.undoLog ++ [record] } }

/-- The resource that is locked for a node. -/
def nodeResource (nodeId : NodeId) : String := "node:" ++ toString nodeId

/-- Create a node within a transaction. -/
def createNode (tm : TransactionManager) (tx : TxId) (g : Graph) (label : String) :
    TransactionManager × Graph × Except TransactionError NodeId :=
  match tm.getWritable tx with
  | .error e => (tm, g, .error e)
  | .ok t =>
      let (g, nodeId) := g.createNode label
      (tm.pushUndo tx t (.createNode nodeId), g, .ok nodeId)

/-- Delete a node within a transaction. -/
def deleteNode (outOrder inOrder : IterOrder) (tm : TransactionManager) (tx : TxId) (g : Graph)
    (nodeId : NodeId) (tables : List (HashMap String LockInfo)) :
    TransactionManager × Graph × Except TransactionError Bool :=
  match tm.getWritable tx with
  | .error e => (tm, g, .error e)
  | .ok _ =>
      match tm.acquireLock tx (nodeResource nodeId) .write tables with
      | (tm, .error e) => (tm, g, .error e)
      | (tm, .ok ()) =>
          match tm.getTransaction tx with
          | .error e => (tm, g, .error e)
          | .ok t =>
              let tm := match g.getNode nodeId with
                | some node => tm.pushUndo tx t (.deleteNode nodeId node.labels node.properties)
                | none => tm
              let (g, node) := g.deleteNode outOrder inOrder nodeId
              (tm, g, .ok node.isSome)

/-- Set a property within a transaction. -/
def setProperty (tm : TransactionManager) (tx : TxId) (g : Graph) (nodeId : NodeId) (key : String)
    (value : PropertyValue) (tables : List (HashMap String LockInfo)) :
    TransactionManager × Graph × Except TransactionError Unit :=
  match tm.getWritable tx with
  | .error e => (tm, g, .error e)
  | .ok _ =>
      match tm.acquireLock tx (nodeResource nodeId) .write tables with
      | (tm, .error e) => (tm, g, .error e)
      | (tm, .ok ()) =>
          match tm.getTransaction tx with
          | .error e => (tm, g, .error e)
          | .ok t =>
              let oldValue := (g.getNode nodeId).bind (·.getProperty key)
              (tm.pushUndo tx t (.setProperty nodeId key oldValue), g.setNodeProperty nodeId key value,
                .ok ())

/-- Roll a transaction back against a `Graph`. -/
def rollback (outOrder inOrder : IterOrder) (tm : TransactionManager) (tx : TxId) (g : Graph) :
    Except TransactionError (TransactionManager × Graph) :=
  letI := Graph.backend outOrder inOrder
  (tm.rollbackBackend tx g).map fun r => (r.1, r.2.1)

end TransactionManager

/-- What happens while a transaction is running. -/
inductive TransactionCall where
  | createNode (label : String)
  | deleteNode (nodeId : NodeId) (outOrder inOrder : IterOrder)
      (tables : List (HashMap String LockInfo))
  | setProperty (nodeId : NodeId) (key : String) (value : PropertyValue)
      (tables : List (HashMap String LockInfo))
  /-- Other transactions change the lock table. -/
  | others (locks : HashMap String LockInfo)

namespace TransactionCall

/-- The manager and the graph after a call; its result is dropped. -/
def apply (tx : TxId) (s : TransactionManager × Graph) : TransactionCall → TransactionManager × Graph
  | createNode label => let (tm, g, _) := s.1.createNode tx s.2 label; (tm, g)
  | deleteNode nodeId outOrder inOrder tables =>
      let (tm, g, _) := s.1.deleteNode outOrder inOrder tx s.2 nodeId tables; (tm, g)
  | setProperty nodeId key value tables =>
      let (tm, g, _) := s.1.setProperty tx s.2 nodeId key value tables; (tm, g)
  | others locks => ({ s.1 with locks := locks }, s.2)

end TransactionCall

/-- No edge leaves or enters a node. -/
def Graph.Isolated (g : Graph) (id : NodeId) : Prop :=
  ∀ e c, g.getEdge e = some c → c.fromNode ≠ id ∧ c.toNode ≠ id

namespace TransactionCall

/-- A deletion that goes through finds no edge at the node. -/
def Detached (tx : TxId) (s : TransactionManager × Graph) : TransactionCall → Prop
  | deleteNode nodeId _ _ tables =>
      (∃ t, s.1.getWritable tx = .ok t) →
      (s.1.acquireLock tx (TransactionManager.nodeResource nodeId) .write tables).2 = .ok () →
      s.2.Isolated nodeId
  | _ => True

end TransactionCall

/-! ## What a call does -/

/-- A change of a graph together with its records. -/
inductive Recorded (g : Graph) : Graph → List UndoRecord → Prop
  | unchanged : Recorded g g []
  | created (label : String) :
      Recorded g (g.createNode label).1 [.createNode (g.createNode label).2]
  | deleted (outOrder inOrder : IterOrder) (id : NodeId) (n : Node) (hn : g.getNode id = some n) :
      Recorded g (g.deleteNode outOrder inOrder id).1 [.deleteNode id n.labels n.properties]
  | assigned (id : NodeId) (key : String) (value : PropertyValue) :
      Recorded g (g.setNodeProperty id key value)
        [.setProperty id key ((g.getNode id).bind (·.getProperty key))]

namespace TransactionManager

/-- A transaction that is running, with its log. -/
def Runs (tm : TransactionManager) (tx : TxId) (readOnly : Bool) (log : List UndoRecord) : Prop :=
  ∃ t, tm.transactions.lookup tx = some t ∧ t.state = .active ∧ t.readOnly = readOnly ∧ t.undoLog = log

variable {tm : TransactionManager} {tx : TxId} {readOnly : Bool} {log : List UndoRecord}

lemma Runs.pushUndo {t : Transaction} (ht : t.state = .active ∧ t.readOnly = readOnly ∧ t.undoLog = log)
    (record : UndoRecord) : (tm.pushUndo tx t record).Runs tx readOnly (log ++ [record]) := by
  obtain ⟨hactive, hreadOnly, hlog⟩ := ht
  exact ⟨_, AList.lookup_insert _, hactive, hreadOnly, by rw [hlog]⟩

lemma Runs.getTransaction (h : tm.Runs tx readOnly log) :
    ∃ t, tm.getTransaction tx = .ok t ∧ t.state = .active ∧ t.readOnly = readOnly ∧ t.undoLog = log := by
  obtain ⟨t, ht, hrest⟩ := h
  exact ⟨t, by rw [TransactionManager.getTransaction, ht], hrest⟩

lemma Runs.getActive (h : tm.Runs tx readOnly log) :
    ∃ t, tm.getActive tx = .ok t ∧ t.undoLog = log := by
  obtain ⟨t, ht, hactive, -, hlog⟩ := h.getTransaction
  refine ⟨t, ?_, hlog⟩
  simp [TransactionManager.getActive, ht, hactive, bind, Except.bind, pure, Except.pure]

lemma Runs.getWritable (h : tm.Runs tx false log) :
    ∃ t, tm.getWritable tx = .ok t ∧ t.state = .active ∧ t.readOnly = false ∧ t.undoLog = log := by
  obtain ⟨t, ht, hactive, hreadOnly, hlog⟩ := h.getTransaction
  refine ⟨t, ?_, hactive, hreadOnly, hlog⟩
  simp [TransactionManager.getWritable, ht, hactive, hreadOnly, bind, Except.bind, pure, Except.pure]

lemma Runs.getWritable_error (h : tm.Runs tx true log) : tm.getWritable tx = .error (.readOnly tx) := by
  obtain ⟨t, ht, -, hreadOnly, -⟩ := h.getTransaction
  simp [TransactionManager.getWritable, ht, hreadOnly, bind, Except.bind, throw, throwThe,
    MonadExceptOf.throw]

/-- Waiting for a lock does not touch what a transaction has done. -/
lemma Runs.acquireIteration (h : tm.Runs tx readOnly log) (resource : String) (mode : LockMode) :
    (tm.acquireIteration tx resource mode).1.Runs tx readOnly log := by
  obtain ⟨t, ht, hrest⟩ := h
  unfold TransactionManager.acquireIteration
  split
  · exact ⟨t, ht, hrest⟩
  · dsimp only
    split
    · refine ⟨{ t with heldLocks := t.heldLocks.add resource }, ?_, hrest⟩
      dsimp only
      rw [HashMap.lookup_modify, if_pos rfl, ht]
      rfl
    · exact ⟨t, ht, hrest⟩

lemma Runs.acquireLock (h : tm.Runs tx readOnly log) (resource : String) (mode : LockMode)
    (tables : List (HashMap String LockInfo)) :
    (tm.acquireLock tx resource mode tables).1.Runs tx readOnly log := by
  induction tables generalizing tm with
  | nil =>
    have hiterate := h.acquireIteration resource mode
    unfold TransactionManager.acquireLock
    split
    · next tm' r heq => rwa [heq] at hiterate
    · next tm' heq => rwa [heq] at hiterate
  | cons locks tables ih =>
    have hiterate := h.acquireIteration resource mode
    unfold TransactionManager.acquireLock
    split
    · next tm' r heq => rwa [heq] at hiterate
    · next tm' heq =>
      rw [heq] at hiterate
      exact ih hiterate

end TransactionManager

namespace TransactionCall

open TransactionManager

variable {tm : TransactionManager} {tx : TxId} {readOnly : Bool} {log : List UndoRecord} {g : Graph}

/-- A call keeps the transaction running and records what it does; a recorded deletion of a node with
an edge is what `Detached` excludes. -/
lemma apply_recorded (h : tm.Runs tx readOnly log) (hg : g.Valid) (c : TransactionCall) :
    ∃ records, (c.apply tx (tm, g)).1.Runs tx readOnly (log ++ records) ∧
      Recorded g (c.apply tx (tm, g)).2 records ∧
      (c.Detached tx (tm, g) ↔ ∀ id labels properties,
        UndoRecord.deleteNode id labels properties ∈ records → g.Isolated id) := by
  cases c with
  | createNode label =>
    cases readOnly with
    | true =>
      refine ⟨[], ?_, ?_, by simp [Detached]⟩
      · simpa [apply, TransactionManager.createNode, h.getWritable_error] using h
      · simpa [apply, TransactionManager.createNode, h.getWritable_error] using .unchanged
    | false =>
      obtain ⟨t, ht, hrest⟩ := h.getWritable
      refine ⟨[.createNode (g.createNode label).2], ?_, ?_, by simp [Detached]⟩
      · simpa [apply, TransactionManager.createNode, ht] using .pushUndo hrest _
      · simpa [apply, TransactionManager.createNode, ht] using .created label
  | deleteNode id outOrder inOrder tables =>
    cases readOnly with
    | true =>
      refine ⟨[], ?_, ?_, ?_⟩
      · simpa [apply, TransactionManager.deleteNode, h.getWritable_error] using h
      · simpa [apply, TransactionManager.deleteNode, h.getWritable_error] using .unchanged
      · simp [Detached, h.getWritable_error]
    | false =>
      obtain ⟨t, ht, -⟩ := h.getWritable
      have hlock := h.acquireLock (nodeResource id) .write tables
      cases hacquire : tm.acquireLock tx (nodeResource id) .write tables with
      | mk tm' r =>
        rw [hacquire] at hlock
        cases r with
        | error e =>
          refine ⟨[], ?_, ?_, ?_⟩
          · simpa [apply, TransactionManager.deleteNode, ht, hacquire] using hlock
          · simpa [apply, TransactionManager.deleteNode, ht, hacquire] using .unchanged
          · simp [Detached, ht, hacquire]
        | ok u =>
          obtain ⟨t', ht', hrest⟩ := hlock.getTransaction
          cases hn : g.getNode id with
          | none =>
            -- There is nothing to delete, and no edge either.
            have hsame : g.deleteNode outOrder inOrder id = (g, none) := by
              simp [Graph.deleteNode, hn]
            have hisolated : g.Isolated id := by
              intro e c hc
              obtain ⟨hfrom, hto⟩ := hg.endpoints e c hc
              refine ⟨?_, ?_⟩ <;> rintro rfl
              · simp [hn] at hfrom
              · simp [hn] at hto
            refine ⟨[], ?_, ?_, ?_⟩
            · simpa [apply, TransactionManager.deleteNode, ht, hacquire, ht', hn] using hlock
            · simpa [apply, TransactionManager.deleteNode, ht, hacquire, ht', hn, hsame] using
                .unchanged
            · simp [Detached, hisolated]
          | some n =>
            refine ⟨[.deleteNode id n.labels n.properties], ?_, ?_, ?_⟩
            · simpa [apply, TransactionManager.deleteNode, ht, hacquire, ht', hn] using
                .pushUndo hrest _
            · simpa [apply, TransactionManager.deleteNode, ht, hacquire, ht', hn] using
                .deleted outOrder inOrder id n hn
            · simp only [Detached, ht, hacquire, List.mem_singleton, UndoRecord.deleteNode.injEq]
              exact ⟨fun h _ _ _ heq => heq.1 ▸ h ⟨t, rfl⟩ trivial, fun h _ _ => h id _ _ ⟨rfl, rfl, rfl⟩⟩
  | setProperty id key value tables =>
    cases readOnly with
    | true =>
      refine ⟨[], ?_, ?_, by simp [Detached]⟩
      · simpa [apply, TransactionManager.setProperty, h.getWritable_error] using h
      · simpa [apply, TransactionManager.setProperty, h.getWritable_error] using .unchanged
    | false =>
      obtain ⟨t, ht, -⟩ := h.getWritable
      have hlock := h.acquireLock (nodeResource id) .write tables
      cases hacquire : tm.acquireLock tx (nodeResource id) .write tables with
      | mk tm' r =>
        rw [hacquire] at hlock
        cases r with
        | error e =>
          refine ⟨[], ?_, ?_, by simp [Detached]⟩
          · simpa [apply, TransactionManager.setProperty, ht, hacquire] using hlock
          · simpa [apply, TransactionManager.setProperty, ht, hacquire] using .unchanged
        | ok u =>
          obtain ⟨t', ht', hrest⟩ := hlock.getTransaction
          refine ⟨[.setProperty id key ((g.getNode id).bind (·.getProperty key))], ?_, ?_,
            by simp [Detached]⟩
          · simpa [apply, TransactionManager.setProperty, ht, hacquire, ht'] using .pushUndo hrest _
          · simpa [apply, TransactionManager.setProperty, ht, hacquire, ht'] using
              .assigned id key value
  | others locks =>
    refine ⟨[], ?_, .unchanged, by simp [Detached]⟩
    rw [List.append_nil]
    exact h

end TransactionCall

/-! ## Taking the records back -/

namespace Graph

variable {g g' : Graph}

/-- Take a record back on a slot graph. -/
def undo (outOrder inOrder : IterOrder) (g : Graph) (u : UndoRecord) : Graph :=
  letI := backend outOrder inOrder
  u.undo g

/-- Putting the properties of a node back one by one. -/
lemma valid_restoreProperties (hg : g.Valid) (id : NodeId)
    (entries : List (Sigma fun _ : String => PropertyValue)) :
    (entries.foldl (fun g p => g.setNodeProperty id p.1 p.2) g).Valid ∧
      (entries.foldl (fun g p => g.setNodeProperty id p.1 p.2) g).content =
        entries.foldl (fun G p => G.setNodeProp id p.1 (some p.2)) g.content := by
  induction entries generalizing g with
  | nil => exact ⟨hg, rfl⟩
  | cons p entries ih =>
    have step := ih (hg.setNodeProperty id p.1 p.2)
    rwa [content_setNodeProperty] at step

/-- The records that a transaction of these operations makes. -/
def IsNodeRecord : UndoRecord → Prop
  | .createNode _ | .deleteNode _ _ _ | .setProperty _ _ _ => True
  | _ => False

lemma getNodeProperty_eq (g : Graph) (id : NodeId) (key : String) :
    (g.getNode id).bind (·.getProperty key) = g.content.nodeProp id key := by
  simp only [PropertyGraph.nodeProp, content]
  cases g.getNode id <;> rfl

lemma undo_setProperty (outOrder inOrder : IterOrder) (hg : g.Valid) (id : NodeId) (key : String)
    (old : Option PropertyValue) :
    (g.undo outOrder inOrder (.setProperty id key old)).Valid ∧
      (g.undo outOrder inOrder (.setProperty id key old)).content = g.content.setNodeProp id key old := by
  cases old with
  | none => exact ⟨hg.modifyNode id _, content_removeNodeProperty g id key⟩
  | some v => exact ⟨hg.setNodeProperty id key v, content_setNodeProperty g id key v⟩

/-- Taking the deletion of a node back puts its content back. -/
lemma undo_deleteNode (outOrder inOrder : IterOrder) (hg : g.Valid) {id : NodeId}
    (hid : g.getNode id = none) (n : Node) :
    (g.undo outOrder inOrder (.deleteNode id n.labels n.properties)).Valid ∧
      (g.undo outOrder inOrder (.deleteNode id n.labels n.properties)).content =
        g.content.putNode id n.content := by
  obtain ⟨hvalid, hcontent⟩ :=
    valid_restoreProperties (hg.createNodeWithIdAndLabels id n.labels) id n.properties.entries
  refine ⟨hvalid, hcontent.trans ?_⟩
  have hempty : (⟨id, n.labels, ∅⟩ : Node).content =
      ⟨{l | l ∈ n.labels}, fun _ => none⟩ := rfl
  rw [(hg.storesNode_withId hid n.labels).content, hempty,
    PropertyGraph.foldl_setNodeProp_putNode, HashMap.foldl_update_empty]
  rfl

/-- Nothing in these records makes an edge. -/
lemma undo_getEdge_none (outOrder inOrder : IterOrder) (hg : g.Valid) {u : UndoRecord}
    (hu : IsNodeRecord u) {e : EdgeId} (he : g.content.edges e = none) :
    (g.undo outOrder inOrder u).Valid ∧ (g.undo outOrder inOrder u).content.edges e = none := by
  cases u with
  | createNode id =>
    refine ⟨hg.deleteNode outOrder inOrder id, ?_⟩
    have hcontent : (g.undo outOrder inOrder (.createNode id)).content = g.content.deleteNode id :=
      hg.content_deleteNode outOrder inOrder id
    rw [hcontent]
    simp [PropertyGraph.deleteNode, he]
  | deleteNode id labels properties =>
    obtain ⟨hvalid, hcontent⟩ :=
      valid_restoreProperties (hg.createNodeWithIdAndLabels id labels) id properties.entries
    refine ⟨hvalid, ?_⟩
    have hset : ∀ (entries : List (Sigma fun _ : String => PropertyValue)) (G : GraphContent),
        (entries.foldl (fun G p => G.setNodeProp id p.1 (some p.2)) G).edges = G.edges := by
      intro entries
      induction entries with
      | nil => intro G; rfl
      | cons p entries ih => intro G; exact ih (G.setNodeProp id p.1 (some p.2))
    have hedges : (g.createNodeWithIdAndLabels id labels).1.content.edges = g.content.edges := by
      cases hid : g.getNode id with
      | none => rw [(hg.storesNode_withId hid labels).content]; rfl
      | some n => simp [createNodeWithIdAndLabels, hid]
    exact (congrFun ((congrArg PropertyGraph.edges hcontent).trans ((hset _ _).trans hedges)) e).trans he
  | setProperty id key old =>
    obtain ⟨hvalid, hcontent⟩ := undo_setProperty outOrder inOrder hg id key old
    exact ⟨hvalid, (congrFun (congrArg PropertyGraph.edges hcontent) e).trans he⟩
  | createEdge | deleteEdge | setEdgeProperty | addLabel | removeLabel => cases hu

lemma replay_getEdge_none (outOrder inOrder : IterOrder) (hg : g.Valid) {records : List UndoRecord}
    (hrecords : ∀ u ∈ records, IsNodeRecord u) {e : EdgeId} (he : g.content.edges e = none) :
    (replay (undo outOrder inOrder) g records).content.edges e = none := by
  have hrun : ∀ (us : List UndoRecord) (g : Graph), g.Valid → (∀ u ∈ us, IsNodeRecord u) →
      g.content.edges e = none → (us.foldl (undo outOrder inOrder) g).content.edges e = none := by
    intro us
    induction us with
    | nil => exact fun _ _ _ he => he
    | cons u us ih =>
      intro g hg hus he
      obtain ⟨hvalid, hnone⟩ := undo_getEdge_none outOrder inOrder hg (hus u List.mem_cons_self) he
      exact ih _ hvalid (fun v hv => hus v (List.mem_cons_of_mem _ hv)) hnone
  exact hrun records.reverse g hg (fun u hu => hrecords u (List.mem_reverse.mp hu)) he

end Graph

namespace Recorded

open Graph

variable {g g' : Graph} {records : List UndoRecord}

lemma valid (h : Recorded g g' records) (hg : g.Valid) (hfits : g.Fits) : g'.Valid := by
  cases h with
  | unchanged => exact hg
  | created label => exact (hg.createsNode hfits.nodes_lt _).valid hg
  | deleted outOrder inOrder id n hn => exact hg.deleteNode outOrder inOrder id
  | assigned id key value => exact hg.setNodeProperty id key value

lemma isNodeRecord (h : Recorded g g' records) : ∀ u ∈ records, IsNodeRecord u := by
  cases h with
  | unchanged => exact fun u hu => nomatch hu
  | created | deleted | assigned => exact List.forall_mem_singleton.mpr trivial

/-- No change makes an edge. -/
lemma edges_none (h : Recorded g g' records) (hg : g.Valid) (hfits : g.Fits) {e : EdgeId}
    (he : g.content.edges e = none) : g'.content.edges e = none := by
  cases h with
  | unchanged => exact he
  | created label =>
    have hcontent := (hg.createsNode hfits.nodes_lt (if label.isEmpty then [] else [label])).content
    exact (congrFun (congrArg PropertyGraph.edges hcontent) e).trans he
  | deleted outOrder inOrder id n hn =>
    rw [hg.content_deleteNode]
    simp [PropertyGraph.deleteNode, he]
  | assigned id key value =>
    rw [content_setNodeProperty]
    exact he

/-- Deleting a node with an edge loses the edge. -/
lemma edges_lost (h : Recorded g g' records) (hg : g.Valid)
    (hlost : ¬ ∀ id labels properties,
      UndoRecord.deleteNode id labels properties ∈ records → g.Isolated id) :
    ∃ e, g.content.edges e ≠ none ∧ g'.content.edges e = none := by
  cases h with
  | unchanged => exact absurd (fun id labels properties h => nomatch h) hlost
  | created | assigned => simp at hlost
  | deleted outOrder inOrder id n hn =>
    have hnot : ¬ g.Isolated id := by
      intro hisolated
      refine hlost fun id' labels properties hmem => ?_
      rw [List.mem_singleton, UndoRecord.deleteNode.injEq] at hmem
      exact hmem.1 ▸ hisolated
    simp only [Isolated, not_forall] at hnot
    obtain ⟨e, c, hc, hincident⟩ := hnot
    refine ⟨e, by simp [content, hc], ?_⟩
    rw [hg.content_deleteNode]
    simp only [PropertyGraph.deleteNode, content, hc, Option.map_some, Option.filter]
    exact if_neg fun hkept => hincident (of_decide_eq_true hkept)

/-- The records invert a change that deletes no node with an edge. -/
lemma inverts (outOrder inOrder : IterOrder) (h : Recorded g g' records) (hg : g.Valid)
    (hfits : g.Fits)
    (hisolated : ∀ id labels properties,
      UndoRecord.deleteNode id labels properties ∈ records → g.Isolated id) :
    Inverts (undo outOrder inOrder) content Valid records g'.content g.content := by
  cases h with
  | unchanged => exact inverts_nil _
  | created label =>
    have hcreate := hg.createsNode hfits.nodes_lt (if label.isEmpty then [] else [label])
    refine inverts_singleton fun s hs hpost => ⟨hs.deleteNode outOrder inOrder _, ?_⟩
    have hback : s.content = g.content.putNode (g.createNode label).2 _ := hpost.trans hcreate.content
    refine (hs.content_deleteNode outOrder inOrder _).trans ?_
    rw [hback, PropertyGraph.deleteNode_putNode _ hg.closed]
    exact content_nodes_eq_none.mpr hcreate.dead
  | deleted forwardOut forwardIn id n hn =>
    have hdeleted := hg.content_deleteNode forwardOut forwardIn id
    refine inverts_singleton fun s hs hpost => ?_
    have hdead : s.getNode id = none := by
      rw [← content_nodes_eq_none, hpost, hdeleted]
      simp [PropertyGraph.deleteNode]
    obtain ⟨hvalid, hcontent⟩ := undo_deleteNode outOrder inOrder hs hdead n
    refine ⟨hvalid, hcontent.trans ?_⟩
    rw [hpost, hdeleted]
    refine PropertyGraph.putEdges_putNode_deleteNode g.content id n.content ?_ [] ?_ ?_
    · simp [content, hn]
    · exact fun p hp => absurd hp List.not_mem_nil
    · intro e d hd hend
      obtain ⟨c, hc, rfl⟩ := Option.map_eq_some_iff.mp hd
      obtain ⟨hfrom, hto⟩ := hisolated id _ _ List.mem_cons_self e c hc
      exact (hend.elim hfrom hto).elim
  | assigned id key value =>
    rw [content_setNodeProperty, getNodeProperty_eq]
    refine inverts_singleton fun s hs hpost => ?_
    obtain ⟨hvalid, hcontent⟩ := undo_setProperty outOrder inOrder hs id key (g.content.nodeProp id key)
    rw [hpost, PropertyGraph.setNodeProp_setNodeProp] at hcontent
    exact ⟨hvalid, hcontent⟩

end Recorded

/-! ## Whole transactions -/

namespace TransactionCall

variable {tx : TxId} {readOnly : Bool} {log : List UndoRecord} {s : TransactionManager × Graph}

/-- No vector outgrows its capacity along the calls of a transaction. -/
def Fit (tx : TxId) (s : TransactionManager × Graph) (calls : List TransactionCall) : Prop :=
  Along (apply tx) (fun s c => (c.apply tx s).2.Fits) s calls

instance (tx : TxId) (s : TransactionManager × Graph) (calls : List TransactionCall) :
    Decidable (Fit tx s calls) :=
  inferInstanceAs (Decidable (Along _ _ _ _))

/-- What the records of a transaction are worth: they invert it exactly when every deletion that goes
through finds no edge at its node. -/
lemma run_recorded (outOrder inOrder : IterOrder) (h : s.1.Runs tx readOnly log) (hg : s.2.Valid)
    (hfits : s.2.Fits) (calls : List TransactionCall) (hcalls : Fit tx s calls) :
    ∃ records, (calls.foldl (apply tx) s).1.Runs tx readOnly (log ++ records) ∧
      (calls.foldl (apply tx) s).2.Valid ∧ (∀ u ∈ records, Graph.IsNodeRecord u) ∧
      (∀ e, s.2.content.edges e = none → (calls.foldl (apply tx) s).2.content.edges e = none) ∧
      (Along (apply tx) (fun s c => c.Detached tx s) s calls →
        Inverts (Graph.undo outOrder inOrder) Graph.content Graph.Valid records
          (calls.foldl (apply tx) s).2.content s.2.content) ∧
      (¬ Along (apply tx) (fun s c => c.Detached tx s) s calls →
        ∃ e, s.2.content.edges e ≠ none ∧ (calls.foldl (apply tx) s).2.content.edges e = none) := by
  induction calls generalizing s log with
  | nil =>
    refine ⟨[], by simpa using h, hg, ?_, fun e he => he, fun _ => inverts_nil _,
      fun hnot => absurd trivial hnot⟩
    exact fun u hu => nomatch hu
  | cons c calls ih =>
    obtain ⟨hfits', hrest⟩ := hcalls
    obtain ⟨records, hruns, hrecorded, hdetached⟩ := apply_recorded h hg c
    obtain ⟨later, hruns', hvalid', hlater, hnone', hinverts', hlost'⟩ :=
      ih hruns (hrecorded.valid hg hfits) hfits' hrest
    refine ⟨records ++ later, by rwa [← List.append_assoc], hvalid', ?_, ?_, ?_, ?_⟩
    · intro u hu
      rcases List.mem_append.mp hu with hu | hu
      · exact hrecorded.isNodeRecord u hu
      · exact hlater u hu
    · exact fun e he => hnone' e (hrecorded.edges_none hg hfits he)
    · rintro ⟨hc, hcalls⟩
      exact (hrecorded.inverts outOrder inOrder hg hfits (hdetached.mp hc)).append (hinverts' hcalls)
    · intro hnot
      by_cases hc : c.Detached tx s
      · obtain ⟨e, he, hgone⟩ := hlost' fun hcalls => hnot ⟨hc, hcalls⟩
        exact ⟨e, fun hnone => he (hrecorded.edges_none hg hfits hnone), hgone⟩
      · obtain ⟨e, he, hgone⟩ := hrecorded.edges_lost hg fun hall => hc (hdetached.mpr hall)
        exact ⟨e, he, hnone' e hgone⟩

end TransactionCall

namespace TransactionManager

/-- A rollback replays the log of the transaction. -/
lemma Runs.rollback {tm : TransactionManager} {tx : TxId} {readOnly : Bool} {log : List UndoRecord}
    (h : tm.Runs tx readOnly log) (outOrder inOrder : IterOrder) (g : Graph) :
    ∃ tm', tm.rollback outOrder inOrder tx g = .ok (tm', replay (Graph.undo outOrder inOrder) g log) := by
  obtain ⟨t, ht, rfl⟩ := h.getActive
  refine ⟨tm.finish tx t .rolledBack, ?_⟩
  simp only [TransactionManager.rollback, rollbackBackend, ht]
  rfl

/-- Rolling a transaction back succeeds, and it restores the graph exactly when every deletion that
went through found no edge at its node. -/
theorem rollback_exact_iff {g : Graph} (hg : g.Built) (tm : TransactionManager) (readOnly : Bool)
    (calls : List TransactionCall)
    (hcalls : TransactionCall.Fit (tm.beginWithOptions readOnly).2
      ((tm.beginWithOptions readOnly).1, g) calls) (outOrder inOrder : IterOrder) :
    ∃ tm' g', (calls.foldl (TransactionCall.apply (tm.beginWithOptions readOnly).2)
        ((tm.beginWithOptions readOnly).1, g)).1.rollback outOrder inOrder
        (tm.beginWithOptions readOnly).2
        (calls.foldl (TransactionCall.apply (tm.beginWithOptions readOnly).2)
          ((tm.beginWithOptions readOnly).1, g)).2 = .ok (tm', g') ∧
      (g'.content = g.content ↔
        Along (TransactionCall.apply (tm.beginWithOptions readOnly).2)
          (fun s c => c.Detached (tm.beginWithOptions readOnly).2 s)
          ((tm.beginWithOptions readOnly).1, g) calls) := by
  obtain ⟨hvalid, hfits⟩ := hg.valid
  set tx := (tm.beginWithOptions readOnly).2 with htx
  set s : TransactionManager × Graph := ((tm.beginWithOptions readOnly).1, g)
  have hruns : s.1.Runs tx readOnly [] := ⟨_, AList.lookup_insert _, rfl, rfl, rfl⟩
  obtain ⟨records, hruns', hvalid', hrecords, -, hinverts, hlost⟩ :=
    TransactionCall.run_recorded outOrder inOrder hruns hvalid hfits calls hcalls
  obtain ⟨tm', hrollback⟩ := hruns'.rollback outOrder inOrder
    (calls.foldl (TransactionCall.apply tx) s).2
  refine ⟨tm', _, hrollback, ?_⟩
  constructor
  · intro hsame
    by_contra hnot
    obtain ⟨e, he, hgone⟩ := hlost hnot
    have hnone := Graph.replay_getEdge_none outOrder inOrder hvalid' hrecords hgone
    exact he (hsame ▸ hnone)
  · intro hdetached
    exact (hinverts hdetached _ hvalid' rfl).2

/-- A node is created, gets a property and is deleted again. -/
theorem rollback_exact_created :
    ∃ tm' g', (([.createNode "A", .setProperty 0 "k" (.bool true) [],
        .deleteNode 0 .listed .listed []] : List TransactionCall).foldl (TransactionCall.apply 1)
        ((new.beginWithOptions false).1, Graph.new)).1.rollback .listed .listed 1
        (([.createNode "A", .setProperty 0 "k" (.bool true) [],
          .deleteNode 0 .listed .listed []] : List TransactionCall).foldl (TransactionCall.apply 1)
          ((new.beginWithOptions false).1, Graph.new)).2 = .ok (tm', g') ∧
      (g'.content = Graph.new.content ↔
        Along (TransactionCall.apply 1) (fun s c => c.Detached 1 s)
          ((new.beginWithOptions false).1, Graph.new)
          [.createNode "A", .setProperty 0 "k" (.bool true) [], .deleteNode 0 .listed .listed []]) :=
  rollback_exact_iff .new new false
    [.createNode "A", .setProperty 0 "k" (.bool true) [], .deleteNode 0 .listed .listed []]
    (by decide +kernel) .listed .listed

/-- The edge of a deleted node does not come back. -/
theorem rollback_loses_edge :
    ¬ ∀ (g : Graph) (tm : TransactionManager) (calls : List TransactionCall), g.Built →
      TransactionCall.Fit (tm.beginWithOptions false).2 ((tm.beginWithOptions false).1, g) calls →
      ∀ (outOrder inOrder : IterOrder) (tm' : TransactionManager) (g' : Graph),
        (calls.foldl (TransactionCall.apply (tm.beginWithOptions false).2)
            ((tm.beginWithOptions false).1, g)).1.rollback outOrder inOrder
            (tm.beginWithOptions false).2
            (calls.foldl (TransactionCall.apply (tm.beginWithOptions false).2)
              ((tm.beginWithOptions false).1, g)).2 = .ok (tm', g') →
        g'.content = g.content := by
  intro hall
  -- Two nodes with an edge between them.
  have hbuilt := (((Graph.Built.new.apply .listed .listed (.createNodeWithLabels ["A"]) (by decide +kernel)).apply
    .listed .listed (.createNodeWithLabels ["B"]) (by decide +kernel)).apply .listed .listed
    (.createEdge 0 1 "R") (by decide +kernel))
  have hsame := hall _ new [.deleteNode 0 .listed .listed []] hbuilt (by decide +kernel) .listed .listed
    _ _ rfl
  have hedge := congrArg (fun G => (G.edges 0).isSome) hsame
  revert hedge
  decide +kernel

end TransactionManager

end Maharit
