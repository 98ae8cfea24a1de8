import MaharitDb.Storage.Incremental

/-!
# What the log says of a run

From a graph `g₀` on, the operations of a run are logged.  The ids that the log mentions tell how the
graph reached differs from `g₀`: an element that is not mentioned is as before, except that an edge
goes with a deleted endpoint.
-/

namespace Maharit

open WalCodec GuardedRun

/-- The ids of the edges that some records create. -/
def createdEdges (records : List LogRecord) : List EdgeId :=
  records.filterMap fun r => match r.payload with
    | .createEdge id _ _ _ => some id
    | _ => none

/-- How `g` differs from `g₀` after the logged operations. -/
structure Tracks (g₀ : Graph) (records : List LogRecord) (g : Graph) : Prop where
  inv : g.Inv
  node_same : ∀ n, n ∉ (Changes.scan records).changedNodes → n ∉ (Changes.scan records).deletedNodes →
    g.getNode n = g₀.getNode n
  node_live : ∀ n, (g₀.getNode n).isSome → n ∉ (Changes.scan records).deletedNodes →
    (g.getNode n).isSome
  edge_same : ∀ e, e ∉ (Changes.scan records).changedEdges → e ∉ (Changes.scan records).deletedEdges →
    g.getEdge e = (g₀.getEdge e).filter fun c =>
      c.fromNode ∉ (Changes.scan records).deletedNodes ∧ c.toNode ∉ (Changes.scan records).deletedNodes
  edge_old : ∀ e c, g.getEdge e = some c → e ∉ createdEdges records →
    ∃ d, g₀.getEdge e = some d ∧ d.fromNode = c.fromNode ∧ d.toNode = c.toNode
  edge_live : ∀ e d, g₀.getEdge e = some d → e ∉ (Changes.scan records).deletedEdges →
    d.fromNode ∉ (Changes.scan records).deletedNodes → d.toNode ∉ (Changes.scan records).deletedNodes →
    ∃ c, g.getEdge e = some c ∧ c.fromNode = d.fromNode ∧ c.toNode = d.toNode

lemma tracks_nil {g : Graph} (hg : g.Inv) : Tracks g [] g where
  inv := hg
  node_same _ _ _ := rfl
  node_live _ hn _ := hn
  edge_same e _ _ := by
    simp [Changes.scan, Changes.none, Option.filter]
    cases g.getEdge e <;> rfl
  edge_old e c hc _ := ⟨c, hc, rfl, rfl⟩
  edge_live e d hd _ _ _ := ⟨d, hd, rfl, rfl⟩

lemma Changes.scan_append (records : List LogRecord) (r : LogRecord) :
    Changes.scan (records ++ [r]) = (Changes.scan records).scanRecord r := by
  rw [Changes.scan, List.foldl_append]
  rfl

lemma mem_createdEdges_append {records : List LogRecord} {r : LogRecord} {e : EdgeId} :
    e ∈ createdEdges (records ++ [r]) ↔
      e ∈ createdEdges records ∨ ∃ fromNode toNode label,
        r.payload = .createEdge e fromNode toNode label := by
  rw [createdEdges, List.filterMap_append, List.mem_append]
  refine or_congr Iff.rfl ?_
  simp only [List.filterMap_cons, List.filterMap_nil]
  cases hr : r.payload <;> simp [eq_comm]

section Step

variable {g₀ g : Graph} {records : List LogRecord} (h : Tracks g₀ records g) {r : LogRecord}

include h

lemma Tracks.createNode {label : String} (hfits : (g.createNode label).1.Fits)
    (hr : r.payload = .createNode (g.createNode label).2 label) :
    Tracks g₀ (records ++ [r]) (g.createNode label).1 := by
  have hcreate := h.inv.valid.createsNode h.inv.fits.nodes_lt (if label.isEmpty then [] else [label])
  change Graph.CreatesNode g (g.createNode label).1 (g.createNode label).2 _ at hcreate
  have hscan : Changes.scan (records ++ [r]) = { Changes.scan records with
      changedNodes := HashSet.add (Changes.scan records).changedNodes (g.createNode label).2 } := by
    rw [Changes.scan_append, Changes.scanRecord, hr]
  have hedge := hcreate.getEdge
  refine ⟨h.inv.createNodeWithLabels _ hfits, ?_, ?_, ?_, ?_, ?_⟩
  · intro n hn hn'
    simp only [hscan, HashSet.mem_add, not_or] at hn hn'
    rw [hcreate.getNode, if_neg hn.1]
    exact h.node_same n hn.2 hn'
  · intro n hn hn'
    simp only [hscan] at hn'
    rw [hcreate.getNode]
    split
    · rfl
    · exact h.node_live n hn hn'
  · intro e he he'
    simp only [hscan] at he he' ⊢
    rw [hedge]
    exact h.edge_same e he he'
  · intro e c hc he
    rw [hedge] at hc
    exact h.edge_old e c hc fun hmem => he (mem_createdEdges_append.mpr (.inl hmem))
  · intro e d hd he hfrom hto
    simp only [hscan] at he hfrom hto
    rw [hedge]
    exact h.edge_live e d hd he hfrom hto

lemma Tracks.deleteNode {id : NodeId} (orders : IterOrder × IterOrder)
    (hr : r.payload = .deleteNode id) :
    Tracks g₀ (records ++ [r]) (g.deleteNode orders.1 orders.2 id).1 := by
  have hvalid := h.inv.valid
  have hscan : Changes.scan (records ++ [r]) = { Changes.scan records with
      changedNodes := HashSet.remove (Changes.scan records).changedNodes id
      deletedNodes := HashSet.add (Changes.scan records).deletedNodes id } := by
    rw [Changes.scan_append, Changes.scanRecord, hr]
  refine ⟨h.inv.deleteNode _ _ _, ?_, ?_, ?_, ?_, ?_⟩
  · intro n hn hn'
    simp only [hscan, HashSet.mem_add, HashSet.mem_remove, not_or, not_and] at hn hn'
    rw [hvalid.getNode_deleteNode, if_neg hn'.1]
    exact h.node_same n (hn hn'.1) hn'.2
  · intro n hn hn'
    simp only [hscan, HashSet.mem_add, not_or] at hn'
    rw [hvalid.getNode_deleteNode, if_neg hn'.1]
    exact h.node_live n hn hn'.2
  · intro e he he'
    simp only [hscan, HashSet.mem_add] at he he' ⊢
    rw [hvalid.getEdge_deleteNode, h.edge_same e he he', Option.filter_filter]
    congr 1
    funext c
    rw [← Bool.decide_and, decide_eq_decide]
    tauto
  · intro e c hc he
    rw [hvalid.getEdge_deleteNode] at hc
    obtain ⟨hc, -⟩ := Option.filter_eq_some_iff.mp hc
    exact h.edge_old e c hc fun hmem => he (mem_createdEdges_append.mpr (.inl hmem))
  · intro e d hd he hfrom hto
    simp only [hscan, HashSet.mem_add, not_or] at he hfrom hto
    obtain ⟨c, hc, hcfrom, hcto⟩ := h.edge_live e d hd he hfrom.2 hto.2
    refine ⟨c, ?_, hcfrom, hcto⟩
    rw [hvalid.getEdge_deleteNode, hc]
    simp [Option.filter, hcfrom, hcto, hfrom.1, hto.1]

lemma Tracks.createEdge {fromNode toNode : NodeId} {label : String} {id : EdgeId}
    (hok : (g.createEdge fromNode toNode label).2 = .ok id)
    (hfits : (g.createEdge fromNode toNode label).1.Fits)
    (hr : r.payload = .createEdge id fromNode toNode label) :
    Tracks g₀ (records ++ [r]) (g.createEdge fromNode toNode label).1 := by
  obtain ⟨hfrom, hto⟩ := Graph.live_of_createEdge_ok hok
  obtain ⟨hnext, hcreate⟩ := h.inv.valid.createsEdge h.inv.fits.edges_lt hfrom hto label
  rw [hok] at hnext
  rw [← Except.ok.inj hnext] at hcreate
  have hnode : ∀ n, (g.createEdge fromNode toNode label).1.getNode n = g.getNode n := fun n => by
    rw [Graph.getNode, hcreate.nodes, Graph.getNode]
  have hscan : Changes.scan (records ++ [r]) = { Changes.scan records with
      changedEdges := HashSet.add (Changes.scan records).changedEdges id } := by
    rw [Changes.scan_append, Changes.scanRecord, hr]
  refine ⟨h.inv.createEdge fromNode toNode label hfits, ?_, ?_, ?_, ?_, ?_⟩
  · intro n hn hn'
    simp only [hscan] at hn hn'
    rw [hnode]
    exact h.node_same n hn hn'
  · intro n hn hn'
    simp only [hscan] at hn'
    rw [hnode]
    exact h.node_live n hn hn'
  · intro e he he'
    simp only [hscan, HashSet.mem_add, not_or] at he he' ⊢
    rw [hcreate.getEdge, if_neg he.1]
    exact h.edge_same e he.2 he'
  · intro e c hc he
    rw [mem_createdEdges_append, not_or] at he
    have hne : e ≠ id := fun heq => he.2 ⟨fromNode, toNode, label, heq ▸ hr⟩
    rw [hcreate.getEdge, if_neg hne] at hc
    exact h.edge_old e c hc he.1
  · intro e d hd he hfrom hto
    simp only [hscan] at he hfrom hto
    obtain ⟨c, hc, hends⟩ := h.edge_live e d hd he hfrom hto
    have hne : e ≠ id := by
      rintro rfl
      rw [hcreate.dead] at hc
      cases hc
    exact ⟨c, by rw [hcreate.getEdge, if_neg hne, hc], hends⟩

lemma Tracks.deleteEdge {id : EdgeId} (hr : r.payload = .deleteEdge id) :
    Tracks g₀ (records ++ [r]) (g.deleteEdge id).1 := by
  have hnode : ∀ n, (g.deleteEdge id).1.getNode n = g.getNode n := fun n => by
    rw [Graph.getNode, Graph.nodes_deleteEdge, Graph.getNode]
  have hscan : Changes.scan (records ++ [r]) = { Changes.scan records with
      changedEdges := HashSet.remove (Changes.scan records).changedEdges id
      deletedEdges := HashSet.add (Changes.scan records).deletedEdges id } := by
    rw [Changes.scan_append, Changes.scanRecord, hr]
  refine ⟨h.inv.deleteEdge id, ?_, ?_, ?_, ?_, ?_⟩
  · intro n hn hn'
    simp only [hscan] at hn hn'
    rw [hnode]
    exact h.node_same n hn hn'
  · intro n hn hn'
    simp only [hscan] at hn'
    rw [hnode]
    exact h.node_live n hn hn'
  · intro e he he'
    simp only [hscan, HashSet.mem_add, HashSet.mem_remove, not_or, not_and] at he he' ⊢
    rw [Graph.getEdge_deleteEdge, if_neg he'.1]
    exact h.edge_same e (he he'.1) he'.2
  · intro e c hc he
    rw [Graph.getEdge_deleteEdge] at hc
    split at hc
    · cases hc
    · exact h.edge_old e c hc fun hmem => he (mem_createdEdges_append.mpr (.inl hmem))
  · intro e d hd he hfrom hto
    simp only [hscan, HashSet.mem_add, not_or] at he hfrom hto
    rw [Graph.getEdge_deleteEdge, if_neg he.1]
    exact h.edge_live e d hd he.2 hfrom hto

lemma Tracks.setNodeProperty {id : NodeId} {key : String} {value : PropertyValue}
    (hr : r.payload = .setNodeProperty id key value) :
    Tracks g₀ (records ++ [r]) (g.setNodeProperty id key value) := by
  have hscan : Changes.scan (records ++ [r]) = { Changes.scan records with
      changedNodes := HashSet.add (Changes.scan records).changedNodes id } := by
    rw [Changes.scan_append, Changes.scanRecord, hr]
  refine ⟨h.inv.modifyNode id (fun _ => rfl) fun _ => rfl, ?_, ?_, ?_, ?_, ?_⟩
  · intro n hn hn'
    simp only [hscan, HashSet.mem_add, not_or] at hn hn'
    rw [Graph.getNode_setNodeProperty, if_neg hn.1]
    exact h.node_same n hn.2 hn'
  · intro n hn hn'
    simp only [hscan] at hn'
    have hlive := h.node_live n hn hn'
    rw [Graph.getNode_setNodeProperty]
    split
    · simpa using hlive
    · exact hlive
  · intro e he he'
    simp only [hscan] at he he' ⊢
    exact h.edge_same e he he'
  · intro e c hc he
    exact h.edge_old e c hc fun hmem => he (mem_createdEdges_append.mpr (.inl hmem))
  · intro e d hd he hfrom hto
    simp only [hscan] at he hfrom hto
    exact h.edge_live e d hd he hfrom hto

lemma Tracks.setEdgeProperty {id : EdgeId} {key : String} {value : PropertyValue}
    (hr : r.payload = .setEdgeProperty id key value) :
    Tracks g₀ (records ++ [r]) (g.setEdgeProperty id key value) := by
  have hscan : Changes.scan (records ++ [r]) = { Changes.scan records with
      changedEdges := HashSet.add (Changes.scan records).changedEdges id } := by
    rw [Changes.scan_append, Changes.scanRecord, hr]
  refine ⟨h.inv.modifyEdge id fun _ => ⟨rfl, rfl, rfl⟩, ?_, ?_, ?_, ?_, ?_⟩
  · intro n hn hn'
    simp only [hscan] at hn hn'
    exact h.node_same n hn hn'
  · intro n hn hn'
    simp only [hscan] at hn'
    exact h.node_live n hn hn'
  · intro e he he'
    simp only [hscan, HashSet.mem_add, not_or] at he he' ⊢
    rw [Graph.getEdge_setEdgeProperty, if_neg he.1]
    exact h.edge_same e he.2 he'
  · intro e c hc he
    rw [mem_createdEdges_append, not_or] at he
    rw [Graph.getEdge_setEdgeProperty] at hc
    split at hc
    · obtain ⟨c', hc', rfl⟩ := Option.map_eq_some_iff.mp hc
      exact h.edge_old e c' hc' he.1
    · exact h.edge_old e c hc he.1
  · intro e d hd he hfrom hto
    simp only [hscan] at he hfrom hto
    obtain ⟨c, hc, hends⟩ := h.edge_live e d hd he hfrom hto
    rw [Graph.getEdge_setEdgeProperty, hc]
    split
    · exact ⟨_, rfl, hends⟩
    · exact ⟨c, rfl, hends⟩

end Step

/-! ## Runs -/

namespace GraphOp

/-- The strings of an operation are short enough for the log. -/
def Short : GraphOp → Prop
  | .createNode label | .createEdge _ _ label => ShortString label
  | .setNodeProperty _ key value | .setEdgeProperty _ key value => ShortString key ∧ ShortValue value
  | .deleteNode _ | .deleteEdge _ => True

instance : ∀ op : GraphOp, Decidable op.Short
  | .createNode label | .createEdge _ _ label => inferInstanceAs (Decidable (ShortString label))
  | .setNodeProperty _ _ _ | .setEdgeProperty _ _ _ => inferInstanceAs (Decidable (_ ∧ _))
  | .deleteNode _ | .deleteEdge _ => .isTrue trivial

lemma shortPayload {op : GraphOp} (hop : op.Short) (orders : IterOrder × IterOrder) (g : Graph)
    {payload : RecordPayload} (h : (op.perform orders g).2 = some payload) : ShortPayload payload := by
  cases op with
  | createNode label =>
    cases h
    exact hop
  | deleteNode id =>
    cases h
    trivial
  | createEdge fromNode toNode label =>
    simp only [perform] at h
    split at h
    · cases h
      exact hop
    · cases h
  | deleteEdge id =>
    cases h
    trivial
  | setNodeProperty id key value =>
    cases h
    exact hop
  | setEdgeProperty id key value =>
    cases h
    exact hop

end GraphOp

namespace LoggedGraph

/-- What a run is: the vectors are allocated, and the strings are short enough for the log. -/
def Allocated (orders : ℕ → IterOrder × IterOrder) (s : LoggedGraph) (op : GraphOp × UInt64) : Prop :=
  (op.1.perform (orders s.log.length) s.graph).1.Fits ∧ op.1.Short

instance (orders : ℕ → IterOrder × IterOrder) (s : LoggedGraph) (op : GraphOp × UInt64) :
    Decidable (s.Allocated orders op) :=
  inferInstanceAs (Decidable (_ ∧ _))

/-- The records `records` were logged since `s₀`, and say how the graph differs. -/
structure Since (s₀ s : LoggedGraph) (records : List LogRecord) : Prop where
  written : s.LogWritten
  log : s.log = s₀.log ++ records
  tracks : Tracks s₀.graph records s.graph

/-- One more operation, with at most one more record, of its time stamp. -/
theorem Since.step {s₀ s : LoggedGraph} {records : List LogRecord} (h : Since s₀ s records)
    (orders : ℕ → IterOrder × IterOrder) {op : GraphOp × UInt64} (hop : s.Allocated orders op) :
    ∃ more, (∀ r ∈ more, r.timestamp = op.2) ∧ more.length ≤ 1 ∧
      Since s₀ (s.step orders op) (records ++ more) := by
  obtain ⟨op, timestamp⟩ := op
  obtain ⟨hfits, hshort⟩ := hop
  have hwritten : (s.step orders (op, timestamp)).LogWritten :=
    h.written.step_of_short orders fun _ hpayload => GraphOp.shortPayload hshort _ _ hpayload
  have hone : ∀ r : LogRecord, r.timestamp = timestamp →
      (s.step orders (op, timestamp)).log = s.log ++ [r] →
      Tracks s₀.graph (records ++ [r]) (s.step orders (op, timestamp)).graph →
      ∃ more, (∀ r ∈ more, r.timestamp = timestamp) ∧ more.length ≤ 1 ∧
        Since s₀ (s.step orders (op, timestamp)) (records ++ more) := by
    intro r hstamp hlog htracks
    exact ⟨[r], by simpa using hstamp, by simp, hwritten, by rw [hlog, h.log, List.append_assoc],
      htracks⟩
  cases op with
  | createNode label => exact hone _ rfl rfl (h.tracks.createNode hfits rfl)
  | deleteNode id => exact hone _ rfl rfl (h.tracks.deleteNode _ rfl)
  | createEdge fromNode toNode label =>
    simp only [LoggedGraph.step, GraphOp.perform] at hone hwritten hfits ⊢
    rcases hcreate : s.graph.createEdge fromNode toNode label with ⟨g, _ | id⟩
    · simp only [hcreate] at hwritten ⊢
      obtain rfl := Graph.eq_of_createEdge_error hcreate
      refine ⟨[], by simp, by simp, hwritten, by simpa using h.log, ?_⟩
      rw [List.append_nil]
      exact h.tracks
    · simp only [hcreate] at hone hfits ⊢
      have htracks := h.tracks.createEdge
        (r := ⟨s.wal.currentLsn + 1, timestamp, .createEdge, .createEdge id fromNode toNode label⟩)
        (congrArg Prod.snd hcreate) (by rwa [hcreate]) rfl
      rw [hcreate] at htracks
      exact hone _ rfl rfl htracks
  | deleteEdge id => exact hone _ rfl rfl (h.tracks.deleteEdge rfl)
  | setNodeProperty id key value => exact hone _ rfl rfl (h.tracks.setNodeProperty rfl)
  | setEdgeProperty id key value => exact hone _ rfl rfl (h.tracks.setEdgeProperty rfl)

/-- A run from `s₀`. -/
theorem Since.run {s₀ s : LoggedGraph} {records : List LogRecord} (h : Since s₀ s records)
    (orders : ℕ → IterOrder × IterOrder) {ops : List (GraphOp × UInt64)}
    (hops : Along (LoggedGraph.step orders) (Allocated orders) s ops) :
    ∃ more, (∀ r ∈ more, ∃ op ∈ ops, r.timestamp = op.2) ∧ more.length ≤ ops.length ∧
      Since s₀ (ops.foldl (LoggedGraph.step orders) s) (records ++ more) := by
  induction ops generalizing s records with
  | nil => exact ⟨[], by simp, by simp, by simpa using h⟩
  | cons op ops ih =>
    obtain ⟨more, hstamp, hlen, hstep⟩ := h.step orders hops.1
    obtain ⟨rest, hstamps, hlen', hrun⟩ := ih hstep hops.2
    refine ⟨more ++ rest, ?_, ?_, ?_⟩
    · intro r hr
      rcases List.mem_append.mp hr with hr | hr
      · exact ⟨op, List.mem_cons_self, hstamp r hr⟩
      · obtain ⟨op', hop', heq⟩ := hstamps r hr
        exact ⟨op', List.mem_cons_of_mem _ hop', heq⟩
    · simp only [List.length_append, List.length_cons]
      omega
    · rw [← List.append_assoc]
      exact hrun

end LoggedGraph

end Maharit
